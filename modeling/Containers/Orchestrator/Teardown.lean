import Containers.Orchestrator.Places

/-!
# Where a teardown goes

`StopAll` takes the services one by one. For each it issues at most one Down: to the remote site on
record for its *name*, and otherwise to its compose file on this machine
(`DefaultOrchestrator.stopTarget`).

After a `StartAll` that succeeded, the record of a name is that of the last of its instances to come
up, and every instance of the name is torn down there. A `StartAll` that fails rolls back what it
started and puts nothing on record: an instance whose rollback Down fails stays up, and on a host it
is out of the reach of `StopAll`.

* `stopAll_after_startAll_iff` – of services with names, compose files and remote sites of their
  own, each that is left running gets exactly one Down, unless a Down on a host fails in the
  `StartAll`.
* `startAll_in_reach_iff` – a `StartAll` leaves nothing out of reach exactly if every site on a host
  with a failed Down has a successful one.
-/

namespace Containers.Orchestrator

open Go Remote DefaultOrchestrator Prog List

variable {o : DefaultOrchestrator} {files : String → Bool} {S : History → Event Outcome → Prop}
  {hosts : List RemoteHost} {t t' : History} {s : StartedService} {r : StartAllResult}
  {svc : Service}
  {site : Site} {m : GoMap String StartedService} {name : String}

/-! ### The Downs of a history -/

def downSite : Event Outcome → Option Site
  | ⟨.localDown file _, _⟩ => some (.onLocal file)
  | ⟨.execute host (.compose dest file _ .down), _⟩ => some (.onHost host dest file)
  | _ => none

/-- The site that a Down was addressed to, if it succeeded. -/
def tornSite : Event Outcome → Option Site
  | ⟨.localDown file _, none⟩ => some (.onLocal file)
  | ⟨.execute host (.compose dest file _ .down), .ok r⟩ =>
    if r.exitCode = 0 then some (.onHost host dest file) else none
  | _ => none

def failedSite (e : Event Outcome) : Option Site := if tornSite e = none then downSite e else none

/-- The sites of some events between two points of a history, in their order. -/
def sitesOf (f : Event Outcome → Option Site) (before after : History) : List Site :=
  ((after.take (after.length - before.length)).filterMap f).reverse

/-- The sites of the Downs that were issued between two points of a history. -/
def issued : History → History → List Site := sitesOf downSite

def tornDown : History → History → List Site := sitesOf tornSite

def failedDowns : History → History → List Site := sitesOf failedSite

/-- What is added to the history are events of these sites, in this order. -/
def Issues (f : Event Outcome → Option Site) (t : History) (sites : List Site) (t' : History) :
    Prop := ∃ new, t' = new ++ t ∧ (new.filterMap f).reverse = sites

section Issues

variable {f : Event Outcome → Option Site} {sites sites' : List Site} {t'' : History}

theorem issues_nil (t : History) : Issues f t [] t := ⟨[], rfl, rfl⟩

theorem Issues.append (h : Issues f t sites t') (h' : Issues f t' sites' t'') :
    Issues f t (sites ++ sites') t'' := by
  obtain ⟨new, rfl, rfl⟩ := h
  obtain ⟨new', rfl, rfl⟩ := h'
  exact ⟨new' ++ new, (append_assoc _ _ _).symm, by rw [filterMap_append, reverse_append]⟩

theorem Issues.sitesOf_eq (h : Issues f t sites t') : sitesOf f t t' = sites := by
  obtain ⟨new, rfl, rfl⟩ := h
  rw [sitesOf, length_append, Nat.add_sub_cancel, take_left]

theorem sitesOf_subset (f : Event Outcome → Option Site) {t₀ : History} (h₀ : t₀ <:+ t)
    (ht : t <:+ t') (ht' : t' <:+ t'') : sitesOf f t t' ⊆ sitesOf f t₀ t'' := by
  obtain ⟨new₀, rfl⟩ := h₀
  obtain ⟨new, rfl⟩ := ht
  obtain ⟨new', rfl⟩ := ht'
  have hall : Issues f t₀ _ (new' ++ (new ++ (new₀ ++ t₀))) :=
    ⟨new' ++ (new ++ new₀), by simp only [append_assoc], rfl⟩
  have hnew : Issues f (new₀ ++ t₀) _ (new ++ (new₀ ++ t₀)) := ⟨new, rfl, rfl⟩
  rw [hall.sitesOf_eq, hnew.sitesOf_eq]
  intro site hsite
  rw [mem_reverse] at hsite ⊢
  rw [filterMap_append, filterMap_append]
  exact mem_append_right _ (mem_append_left _ hsite)

end Issues

/-! ### The target of a service -/

def recordedSite (records : GoMap String StartedService) (name : String) : Option Site :=
  (records.lookup name).bind fun s => if s.remote.isSome then some s.site else none

/-- **Where `StopAll` sends the Down of a service**, if it issues one. -/
def DefaultOrchestrator.stopTarget (o : DefaultOrchestrator) (svc : Service) : Option Site :=
  match recordedSite o.startedByName svc.name with
  | some site => if o.remoteExec then some site else none
  | none => if o.localOrch then some (.onLocal (o.composePath svc)) else none

theorem stopTarget_of_none (h : recordedSite o.startedByName svc.name = none) :
    o.stopTarget svc = if o.localOrch then some (.onLocal (o.composePath svc)) else none := by
  rw [stopTarget, h]

theorem stopTarget_of_some (h : recordedSite o.startedByName svc.name = some site) :
    o.stopTarget svc = if o.remoteExec then some site else none := by
  rw [stopTarget, h]

theorem isLocal_of_recordedSite (h : recordedSite m name = some site) : site.isLocal = false := by
  obtain ⟨s, -, hs⟩ := Option.bind_eq_some_iff.mp h
  obtain ⟨hremote, hsite⟩ := Option.ite_none_right_eq_some.mp hs
  cases hsite
  obtain ⟨info, hinfo⟩ := Option.isSome_iff_exists.mp hremote
  rw [StartedService.site, hinfo]
  rfl

theorem wp_stopLocal (x : Stopping) (svc : Service) (tracked : Bool) (t : History) :
    (o.stopLocal x svc tracked).wp S (fun _ t' => Issues downSite t
      (if o.localOrch then some (.onLocal (o.composePath svc)) else none : Option Site).toList
        t') t := by
  rw [stopLocal]
  rcases o.localOrch
  · exact issues_nil t
  · refine wp_seam ?_
    rintro (_ | err) - <;> exact ⟨[_], rfl, rfl⟩

theorem wp_remoteComposeDown (info : RemoteStartInfo) (composeAbs profile : String) (t : History) :
    (remoteComposeDown info composeAbs profile).wp S
      (fun _ t' => Issues downSite t [siteOf composeAbs (some info)] t') t := by
  refine wp_seam ?_
  rintro (err | result) -
  · exact ⟨[_], rfl, rfl⟩
  · dsimp only
    split <;> exact ⟨[_], rfl, rfl⟩

theorem wp_stopRemote (x : Stopping) (svc : Service) (composeAbs : String) (info : RemoteStartInfo)
    (t : History) :
    (o.stopRemote x svc composeAbs info).wp S (fun _ t' => Issues downSite t
      (if o.remoteExec then some (siteOf composeAbs (some info)) else none : Option Site).toList t')
      t := by
  rw [stopRemote]
  rcases o.remoteExec
  · exact issues_nil t
  · refine (wp_remoteComposeDown info composeAbs svc.profile t).bind ?_
    rintro (_ | err) t' ht <;> exact ht

/-- **One turn of `StopAll`** issues the one Down of the service. -/
theorem wp_stopOne (x : Stopping) (svc : Service) (t : History) :
    (o.stopOne o.startedByName x svc).wp S
      (fun _ t' => Issues downSite t (o.stopTarget svc).toList t') t := by
  rw [stopOne]
  rcases hlookup : o.startedByName.lookup svc.name with _ | s
  · rw [stopTarget_of_none (by rw [recordedSite, hlookup]; rfl)]
    exact wp_stopLocal x svc false t
  · dsimp only
    rcases hremote : s.remote with _ | info
    · rw [stopTarget_of_none (by rw [recordedSite, hlookup, Option.bind_some, hremote]; rfl)]
      exact wp_stopLocal x svc true t
    · have hsome :
          recordedSite o.startedByName svc.name = some (siteOf s.composeAbs (some info)) := by
        rw [recordedSite, hlookup, Option.bind_some, StartedService.site, hremote]
        rfl
      rw [stopTarget_of_some hsome]
      exact wp_stopRemote x svc s.composeAbs info t

/-- **`StopAll` issues, service by service, the Down of each.** -/
theorem wp_stopAll (t : History) :
    o.stopAll.wp S (fun _ t' => Issues downSite t (o.services.filterMap o.stopTarget) t') t := by
  rw [stopAll]
  by_cases hnone : (!o.localOrch && !o.remoteExec) = true
  · rw [if_pos hnone]
    have htarget : ∀ svc ∈ o.services, o.stopTarget svc = none := by
      intro svc _
      rw [Bool.and_eq_true, Bool.not_eq_true', Bool.not_eq_true'] at hnone
      rw [stopTarget, hnone.1, hnone.2]
      split <;> rfl
    rw [filterMap_eq_nil_iff.mpr htarget]
    exact issues_nil t
  · rw [if_neg hnone]
    refine wp_foldlM (fun done _ => Issues downSite t (done.filterMap o.stopTarget))
      (issues_nil t) ?_
    intro done svc rest x t' _ ht'
    refine (wp_stopOne x svc t').mono fun _ t'' ht'' => ?_
    rw [filterMap_append]
    exact ht'.append ht''

/-! ### How a `StartAll` ends -/

/-- **How a `StartAll` ends**: refused before anything is started; with all that came up on
record; or rolled back, with the records of what could be torn down dropped. -/
inductive Ended (o : DefaultOrchestrator) (r : StartAllResult) : Prop
  | refused (herr : r.err ≠ none) (hleft : r.left = []) (horch : r.orch = o)
  | done (herr : r.err = none) (hleft : r.left = r.started)
    (horch : r.orch = r.started.foldl trackStarted o)
  | rolledBack (m : GoMap String StartedService) (herr : r.err ≠ none)
    (hleft : ∀ s ∈ r.left, s ∈ r.started) (horch : r.orch = { o with startedByName := m })
    (hm : ∀ name, m.lookup name =
      if name ∈ r.down.map (·.svc.name) then none else o.startedByName.lookup name)

theorem wp_startAll_ended (t : History) : (o.startAll files).wp S (fun r _ => Ended o r) t := by
  refine wp_startAll (fun _ _ _ => True) ?_ (fun _ _ => trivial) ?_ ?_ ?_
  · exact fun e => .refused (by simp) rfl rfl
  · exact fun _ _ _ => wp_of_forall (fun _ _ => trivial) _
  · intro b t e _
    refine (wp_rollback b.started t).mono ?_
    rintro x t' ⟨hleft, m, horch, hm⟩
    exact .rolledBack m (by simp) hleft horch hm
  · exact fun _ => .done rfl rfl rfl

theorem Ended.left_mem_started (h : Ended o r) : ∀ s ∈ r.left, s ∈ r.started := by
  cases h with
  | refused _ hleft _ => simp [hleft]
  | done _ hleft _ => exact fun s hs => hleft ▸ hs
  | rolledBack _ _ hleft _ _ => exact hleft

/-- **What is tracked** under a name: the record of the last that was started, or what was there
before. -/
theorem lookup_foldl_trackStarted (started : List StartedService) (o : DefaultOrchestrator)
    (name : String) :
    (∃ last ∈ started, last.svc.name = name ∧
      (started.foldl trackStarted o).startedByName.lookup name = some last) ∨
    (∀ s ∈ started, s.svc.name ≠ name) ∧
      (started.foldl trackStarted o).startedByName.lookup name = o.startedByName.lookup name := by
  induction started using reverseRecOn with
  | nil => exact .inr ⟨forall_mem_nil _, rfl⟩
  | append_singleton started last ih =>
    have hinsert : ((started ++ [last]).foldl trackStarted o).startedByName =
        (started.foldl trackStarted o).startedByName.insert last.svc.name last := by
      rw [foldl_append]
      rfl
    rw [hinsert]
    by_cases hname : last.svc.name = name
    · exact .inl ⟨last, mem_append_right _ mem_cons_self, hname, by
        rw [← hname, AList.lookup_insert]⟩
    · rw [AList.lookup_insert_ne (Ne.symm hname)]
      refine ih.imp ?_ (And.imp_left fun hnone => ?_)
      · rintro ⟨last', hmem, hlast'⟩
        exact ⟨last', mem_append_left _ hmem, hlast'⟩
      · exact forall_mem_append.mpr ⟨hnone, forall_mem_singleton.mpr hname⟩

/-! ### What is torn down where it runs -/

theorem Recorded.isLocal_iff (h : Recorded o hosts t s) :
    s.upAt.isLocal = true ↔ s.upAt = .onLocal (o.composePath s.svc) := by
  obtain ⟨-, hpath, hup, -⟩ := h
  rw [← hpath]
  generalize s.remote = remote at hup
  generalize s.upAt = upAt at hup ⊢
  cases hup with
  | here => exact iff_of_true rfl rfl
  | there => simp [siteOf, Site.isLocal]

/-- **A Down reaches a service** if it is that of its compose file on this machine and nothing
remote is on record, or what is on record is where the service runs. -/
theorem Recorded.stopTarget_eq_iff (h : Recorded o hosts t s) (m : GoMap String StartedService)
    (svc : Service) :
    stopTarget { o with startedByName := m } svc = some s.upAt ↔
      (recordedSite m svc.name = none ∧ s.upAt = .onLocal (o.composePath svc)) ∨
        recordedSite m svc.name = some s.upAt := by
  rcases s with ⟨_, composeAbs, remote, upAt⟩
  have hup : BroughtUp o hosts composeAbs remote upAt := h.up
  rcases hsite : recordedSite m svc.name with _ | site
  · rw [stopTarget_of_none hsite]
    cases hup with
    | here hlocal =>
      have hcompose : composePath { o with startedByName := m } svc =
        o.composePath svc := rfl
      rw [if_pos hlocal, hcompose]
      constructor
      · exact fun heq => .inl ⟨rfl, (Option.some.inj heq).symm⟩
      · rintro (⟨-, heq⟩ | heq)
        · rw [heq]
        · cases heq
    | there => simp [siteOf]
  · have hremote := isLocal_of_recordedSite hsite
    rw [stopTarget_of_some hsite]
    cases hup with
    | here =>
      rcases site with file | ⟨host, dest, file⟩
      · cases hremote
      · simp
    | there henabled =>
      have hexec : o.remoteExec = true := (Bool.and_eq_true_iff.mp henabled).2
      simp [hexec]

theorem recordedSite_of_lookup (h : Recorded o hosts t s)
    (hone : o.remoteEnabled = false ∨ hosts.length ≤ 1)
    (hlookup : m.lookup name = some s) :
    recordedSite m name = if s.upAt.isLocal then none else some s.upAt := by
  have hsite : s.site = s.upAt := h.up.siteOf_eq hone
  rw [recordedSite, hlookup, Option.bind_some, hsite]
  rcases s with ⟨_, composeAbs, remote, upAt⟩
  have hup : BroughtUp o hosts composeAbs remote upAt := h.up
  cases hup <;> rfl

def NoneRemote (o : DefaultOrchestrator) : Prop :=
  ∀ svc ∈ o.services, recordedSite o.startedByName svc.name = none

theorem recordedSite_of_rolledBack {down : List StartedService}
    (hm : ∀ name, m.lookup name =
      if name ∈ down.map (·.svc.name) then none else o.startedByName.lookup name)
    (h : recordedSite o.startedByName name = none) : recordedSite m name = none := by
  rw [recordedSite, hm]
  split
  · rfl
  · exact h

section Done

variable (hrec : ∀ s ∈ r.started, Recorded o hosts t s)
  (hone : o.remoteEnabled = false ∨ hosts.length ≤ 1)

include hrec hone

theorem exists_of_recordedSite (h : recordedSite o.startedByName name = none)
    (hsite : recordedSite (r.started.foldl trackStarted o).startedByName name = some site) :
    ∃ s ∈ r.started, s.svc.name = name ∧ s.upAt = site := by
  rcases lookup_foldl_trackStarted r.started o name with ⟨last, hmem, hname, hlookup⟩ | ⟨-, hlookup⟩
  · rw [recordedSite_of_lookup (hrec last hmem) hone hlookup] at hsite
    exact ⟨last, hmem, hname, Option.some.inj (Option.ite_none_left_eq_some.mp hsite).2⟩
  · rw [recordedSite, hlookup] at hsite
    rw [recordedSite, hsite] at h
    cases h

/-- **After a boot that went well**, each service is torn down where it runs, where no name was
started twice or nothing is started remotely. -/
theorem stopTarget_of_done
    (hnodup : o.remoteEnabled = true → (r.started.map (·.svc.name)).Nodup) (hs : s ∈ r.started) :
    (r.started.foldl trackStarted o).stopTarget s.svc = some s.upAt := by
  obtain ⟨m, hm, -⟩ := foldl_trackStarted r.started o
  rcases lookup_foldl_trackStarted r.started o s.svc.name with
    ⟨last, hmem, hname, hlookup⟩ | ⟨hnone, -⟩
  · rw [hm] at hlookup
    have hsame : last.upAt.isLocal = true ∧ s.upAt.isLocal = true ∨ last.upAt = s.upAt := by
      by_cases hremote : o.remoteEnabled = true
      · exact .inr (by rw [inj_on_of_nodup_map (hnodup hremote) hmem hs hname])
      · have hlocal : ∀ s ∈ r.started, s.upAt.isLocal = true := fun s hs => by
          obtain ⟨-, -, hup, -⟩ := hrec s hs
          generalize s.remote = remote at hup
          generalize s.upAt = upAt at hup
          cases hup with
          | here => rfl
          | there henabled => exact absurd henabled hremote
        exact .inl ⟨hlocal last hmem, hlocal s hs⟩
    rw [hm, (hrec s hs).stopTarget_eq_iff, recordedSite_of_lookup (hrec last hmem) hone hlookup,
      ← (hrec s hs).isLocal_iff]
    rcases hsame with ⟨hlast, hlocal⟩ | heq
    · exact .inl ⟨if_pos hlast, hlocal⟩
    · rw [heq]
      by_cases hlocal : s.upAt.isLocal = true
      · exact .inl ⟨if_pos hlocal, hlocal⟩
      · exact .inr (if_neg hlocal)
  · exact absurd rfl (hnone s hs)

end Done

/-! ### Each instance is started once -/

def StartedLogged (b : Boot) : Prop := (b.started.map (·.svc)).Sublist (b.fates.map (·.1))

theorem foldl_visit_fates (level : List Service) (x : Boot × List (Service × String)) :
    x.1.fates <+: (level.foldl (o.visit files) x).1.fates := by
  induction level generalizing x with
  | nil => exact prefix_refl _
  | cons s level ih =>
    refine IsPrefix.trans ?_ (ih (o.visit files x s))
    rw [visit]
    split
    · rw [Boot.skip, Boot.log, ((x.1.recordNameFailure s.name).fail_fields s _).1]
      exact prefix_append _ _
    · split
      · exact prefix_append _ _
      · exact prefix_refl _

theorem wp_bootLevel_logged {level : List Service} {b : Boot} (h : StartedLogged b) :
    (o.bootLevel files b level).wp S (fun b' _ => StartedLogged b') t := by
  refine wp_seam ?_
  rintro order -
  refine wp_foldlM (fun _ b _ => StartedLogged b) ?_ ?_
  · rw [StartedLogged, (foldl_visit_started o files level (b, [])).1]
    exact h.trans ((foldl_visit_fates level (b, [])).map _).sublist
  · rintro done x rest b t - hb
    refine (wp_start_svc x.1 x.2 t).bind ?_
    rintro ⟨s, err, started⟩ t' ⟨hsvc : s = x.1, hstarted⟩
    rw [wp_pure, StartedLogged, Boot.drain_started, Boot.drain_fates, map_append,
      map_append]
    refine hb.append ?_
    rcases started with _ | st
    · exact nil_sublist _
    · rw [Option.toList_some, map_singleton, map_singleton, hstarted st rfl, hsvc]

theorem wp_startAll_logged (t : History) :
    (o.startAll files).wp S (fun r _ => ∀ b, r.boot = some b → StartedLogged b) t :=
  wp_startAll_boot (fun _ => StartedLogged) (fun _ _ => Sublist.refl _)
    (fun _ _ => wp_bootLevel_logged) t

/-- **With names that do not repeat, no name is started twice.** -/
theorem wp_startAll_nodup (files : String → Bool) (hnames : (o.services.map (·.name)).Nodup)
    (t : History) :
    (o.startAll files).wp S (fun r _ => (r.started.map (·.svc.name)).Nodup) t := by
  refine ((wp_startAll_booted t).and (wp_startAll_logged t)).mono ?_
  rintro r t' ⟨hbooted, hlogged⟩
  rcases hboot : r.boot with _ | b
  · rw [StartAllResult.started, hboot]
    exact nodup_nil
  · have hperm := (hbooted b hboot).perm
    rw [append_nil] at hperm
    have hsub := ((hlogged b hboot).map (·.name)).nodup ((hperm.map (·.name)).nodup_iff.mpr hnames)
    rw [StartAllResult.started, hboot]
    rwa [map_map] at hsub

/-! ### The Downs of a `StartAll` -/

def NotDown : SeamCall → Prop
  | .localDown _ _ => False
  | .execute _ (.compose _ _ _ .down) => False
  | _ => True

theorem failedSite_of_notDown {c : SeamCall} (hc : NotDown c) (answer : Outcome c) :
    failedSite ⟨c, answer⟩ = none := by
  have hdown : downSite ⟨c, answer⟩ = none := by
    cases c with
    | localDown => cases hc
    | execute host command =>
      rcases command with dir | ⟨dest, file, profile, _ | _⟩
      · rfl
      · rfl
      · cases hc
    | _ => rfl
  rw [failedSite, hdown, ite_self]

theorem only_launchLocal : Only NotDown (o.launchLocal svc name) := by
  refine Only.bind ?_ ?_
  · rw [startLocal]
    split
    · exact only_pure _
    · exact only_perform trivial
  · rintro (_ | err) <;> exact only_pure _

theorem only_startRemote : Only NotDown (o.startRemote svc name) := by
  rw [startRemote]
  split
  · exact only_pure _
  refine Only.bind (only_perform trivial) ?_
  rintro (_ | ⟨host, rest⟩)
  · exact only_pure _
  refine Only.bind (only_perform trivial) ?_
  rintro (err | made)
  · exact only_pure _
  dsimp only
  split
  · exact only_pure _
  refine Only.bind (only_perform trivial) ?_
  rintro (_ | err)
  · refine Only.bind (only_perform trivial) ?_
    rintro (err | up)
    · exact only_pure _
    · dsimp only
      split <;> exact only_pure _
  · exact only_pure _

theorem only_resolveRemoteStartInfo : Only NotDown (o.resolveRemoteStartInfo name) := by
  rw [resolveRemoteStartInfo]
  split
  · exact only_pure _
  · refine Only.bind (only_perform trivial) ?_
    rintro (_ | ⟨host, rest⟩) <;> exact only_pure _

theorem only_checkServiceHealth {info : Option RemoteStartInfo} :
    Only NotDown (o.checkServiceHealth svc info) := by
  rw [checkServiceHealth]
  split
  · exact only_pure _
  · refine Only.bind (only_perform trivial) ?_
    rintro (_ | result)
    · exact only_pure _
    · dsimp only
      split_ifs <;> exact only_pure _

theorem only_start : Only NotDown (o.start svc name) := by
  refine Only.bind ?_ ?_
  · rw [launch]
    split
    · refine Only.bind only_startRemote ?_
      rintro (err | place)
      · exact only_launchLocal
      · exact Only.bind only_resolveRemoteStartInfo fun _ => only_pure _
    · exact only_launchLocal
  · rintro (err | up)
    · exact only_pure _
    · exact Only.bind only_checkServiceHealth fun _ => only_pure _

/-- **Starting services tears nothing down.** -/
theorem wp_bootLevel_quiet {b : Boot} {level : List Service} (t : History) :
    (o.bootLevel files b level).wp S (fun _ => Issues failedSite t []) t := by
  have honly : Only NotDown (o.bootLevel files b level) :=
    Only.bind (only_perform trivial) fun _ =>
      only_foldlM (fun _ _ => Only.bind only_start fun _ => only_pure _) _ _
  refine honly.wp (R := fun t => Issues failedSite t []) issues_nil ?_ t
  intro t t' c answer hc h
  exact h.append ⟨[_], rfl, by simp [failedSite_of_notDown hc]⟩

theorem wp_rollbackDown (hup : BroughtUp o hosts s.composeAbs s.remote s.upAt) (t : History) :
    (o.rollbackDown s).wp S (fun err t' =>
      (err = none → Issues failedSite t [] t' ∧ s.site ∈ tornDown t t') ∧
      (err ≠ none → Issues failedSite t [s.site] t')) t := by
  have htorn : ∀ {e : Event Outcome}, tornSite e = some s.site →
      Issues failedSite t [] (e :: t) ∧ s.site ∈ tornDown t (e :: t) := by
    intro e he
    have hissues : Issues tornSite t _ (e :: t) := ⟨[e], rfl, rfl⟩
    refine ⟨⟨[e], rfl, by simp [failedSite, he]⟩, ?_⟩
    rw [tornDown, hissues.sitesOf_eq]
    simp [he]
  have hfails : ∀ {e : Event Outcome}, failedSite e = some s.site →
      Issues failedSite t [s.site] (e :: t) := fun {e} he => ⟨[e], rfl, by simp [he]⟩
  rw [StartedService.site] at htorn hfails ⊢
  rw [rollbackDown]
  generalize s.upAt = upAt at hup
  generalize s.remote = remote at hup htorn hfails ⊢
  cases hup with
  | here hlocal =>
    rw [hlocal]
    rintro (_ | err) -
    · exact ⟨fun _ => htorn rfl, absurd rfl⟩
    · exact ⟨fun h => absurd h (by simp), fun _ => hfails rfl⟩
  | there hremote =>
    rw [(Bool.and_eq_true_iff.mp hremote).2]
    refine wp_seam ?_
    rintro (err | result) -
    · exact ⟨fun h => absurd h (by simp), fun _ => hfails rfl⟩
    · dsimp only
      split_ifs with hexit
      · refine ⟨fun h => absurd h (by simp), fun _ => hfails ?_⟩
        simp only [failedSite, tornSite, if_neg hexit]
        rfl
      · exact ⟨fun _ => htorn (if_pos (not_not.mp hexit)), absurd rfl⟩

/-- **A rollback**: the Downs that fail are those of what it leaves running, and the others
succeed. -/
theorem wp_rollback_downs {started : List StartedService}
    (hrec : ∀ s ∈ started, Recorded o hosts t s) :
    (o.rollback started).wp S (fun x t' => Issues failedSite t (x.left.map (·.site)) t' ∧
      ∀ s ∈ started, s ∈ x.left ∨ s.site ∈ tornDown t t') t := by
  refine (wp_foldlM (fun done (x : RollingBack) t' => t <:+ t' ∧
    Issues failedSite t (x.left.map (·.site)) t' ∧
      ∀ s ∈ done, s ∈ x.left ∨ s.site ∈ tornDown t t')
    ⟨suffix_rfl, issues_nil t, forall_mem_nil _⟩ ?_).mono fun _ _ h => h.2
  rintro done s rest x t' hsplit ⟨hsuffix, hfailed, hdone⟩
  have hs : s ∈ started := hsplit ▸ mem_append_right _ mem_cons_self
  refine ((wp_rollbackDown (hrec s hs).up t').and (wp_suffix _ t')).bind ?_
  rintro (_ | err) t'' ⟨⟨hnone, hsome⟩, hsuffix'⟩
  · obtain ⟨hissues, htorn⟩ := hnone rfl
    refine ⟨hsuffix.trans hsuffix', by simpa using hfailed.append hissues,
      forall_mem_append.mpr ⟨fun s' hs' => (hdone s' hs').imp_right fun h =>
        sitesOf_subset _ suffix_rfl hsuffix hsuffix' h, forall_mem_singleton.mpr (.inr ?_)⟩⟩
    exact sitesOf_subset _ hsuffix hsuffix' suffix_rfl htorn
  · refine ⟨hsuffix.trans hsuffix', ?_, forall_mem_append.mpr ⟨fun s' hs' =>
      (hdone s' hs').imp (mem_append_left _) fun h =>
        sitesOf_subset _ suffix_rfl hsuffix hsuffix' h,
        fun s' hs' => .inl (mem_append_right _ hs')⟩⟩
    rw [map_append]
    exact hfailed.append (hsome (by simp))

theorem wp_startAll_downs (t : History) :
    (o.startAll files).wp (fun _ => Listed hosts) (fun r t' =>
      Issues failedSite t (if r.err = none then [] else r.left.map (·.site)) t' ∧
        ∀ s ∈ r.started, s ∈ r.left ∨ s.site ∈ tornDown t t') t := by
  refine wp_startAll (fun _ b t' => AllRecorded o hosts t' b ∧ t <:+ t' ∧ Issues failedSite t [] t')
    ?_ (fun _ _ => ⟨forall_mem_nil _, suffix_rfl, issues_nil t⟩) ?_ ?_ ?_
  · exact fun _ => ⟨issues_nil t, forall_mem_nil _⟩
  · rintro levels done level later b t' hlev hsplit ⟨hb, hsuffix, hissues⟩
    refine ((wp_bootLevel_recorded (fun s hs => hlev.perm.mem_iff.mp ?_) hb).and
      ((wp_suffix _ t').and (wp_bootLevel_quiet t'))).mono ?_
    · exact mem_flatten.mpr ⟨level, hsplit ▸ mem_append_right _ mem_cons_self, hs⟩
    · rintro b' t'' ⟨hb', hsuffix', hissues'⟩
      exact ⟨hb', hsuffix.trans hsuffix', hissues.append hissues'⟩
  · rintro b t' e ⟨hb, hsuffix, hissues⟩
    refine ((wp_rollback_downs hb).and (wp_suffix _ t')).mono ?_
    rintro x t'' ⟨⟨hfailed, htorn⟩, hsuffix'⟩
    exact ⟨hissues.append hfailed, fun s hs => (htorn s hs).imp_right fun h =>
      sitesOf_subset _ hsuffix hsuffix' suffix_rfl h⟩
  · exact fun h => ⟨h.2.2, fun s hs => .inl hs⟩

/-! ### A `StartAll`, and a `StopAll` after it -/

section Calls

variable {o : DefaultOrchestrator} {files : String → Bool} {m : DefaultHostManager}
  {env : Surroundings} {t t' : History} {r : StartAllResult}

theorem startAll_facts (henv : Lists m env)
    (hone : o.remoteEnabled = false ∨ m.listHosts.length ≤ 1)
    (hrun : (o.startAll files).run env t = (r, t')) :
    Ended o r ∧ (∀ s ∈ r.started, Recorded o m.listHosts t' s) ∧ r.orch.services = o.services ∧
      failedDowns t t' = (if r.err = none then [] else r.left.map (·.upAt)) ∧
      ∀ s ∈ r.started, s ∈ r.left ∨ s.upAt ∈ tornDown t t' := by
  have hfacts := ((wp_startAll_ended (S := fun _ => Listed m.listHosts) t).and
    ((wp_startAll_recorded t).and (wp_startAll_downs t))).of_run_answered (p := o.startAll files)
      env henv.listed
  rw [hrun] at hfacts
  obtain ⟨hended, ⟨⟨m', horch, -⟩, hrec⟩, hfailed, htorn⟩ := hfacts
  have hsite : ∀ s ∈ r.started, s.site = s.upAt := fun s hs => (hrec s hs).up.siteOf_eq hone
  refine ⟨hended, hrec, by rw [horch], ?_, fun s hs => hsite s hs ▸ htorn s hs⟩
  rw [failedDowns, hfailed.sitesOf_eq,
    map_congr_left fun s hs => hsite s (hended.left_mem_started s hs)]

theorem issued_stopAll (o : DefaultOrchestrator) (env : Surroundings) (t : History) :
    issued t (o.stopAll.run env t).2 = o.services.filterMap o.stopTarget :=
  ((wp_stopAll (S := fun _ _ => True) t).of_run_answered env fun _ _ => trivial).sitesOf_eq

theorem startAll_nodup (hnames : (o.services.map (·.name)).Nodup)
    (hrun : (o.startAll files).run env t = (r, t')) : (r.started.map (·.svc.name)).Nodup := by
  have hnodup := (wp_startAll_nodup (S := fun _ _ => True) files hnames t).of_run_answered
    env fun _ _ => trivial
  rwa [hrun] at hnodup

/-- **Two services that do not get into each other's way**: they have compose files of their own,
and, if services are started remotely, names and sites on a host. -/
def Apart (o : DefaultOrchestrator) (hosts : List RemoteHost) (a b : Service) : Prop :=
  o.composePath a ≠ o.composePath b ∧ (o.remoteEnabled = true → a.name ≠ b.name ∧
    ∀ host ∈ hosts,
      siteOf (o.composePath a) (some ⟨host, remoteServiceDest host (o.composePath a)⟩) ≠
      siteOf (o.composePath b) (some ⟨host, remoteServiceDest host (o.composePath b)⟩))

theorem Apart.symm {hosts : List RemoteHost} {a b : Service} (h : Apart o hosts a b) :
    Apart o hosts b a :=
  ⟨h.1.symm, fun hremote => ⟨(h.2 hremote).1.symm, fun host hhost =>
    ((h.2 hremote).2 host hhost).symm⟩⟩

theorem Recorded.remote_of_not_isLocal {hosts : List RemoteHost} {s : StartedService}
    (h : Recorded o hosts t s) (hlocal : s.upAt.isLocal = false) : o.remoteEnabled = true ∧
      ∃ host ∈ hosts, s.upAt = siteOf (o.composePath s.svc)
        (some ⟨host, remoteServiceDest host (o.composePath s.svc)⟩) := by
  obtain ⟨-, hpath, hup, -⟩ := h
  rw [← hpath]
  generalize s.remote = remote at hup
  generalize s.upAt = upAt at hup hlocal ⊢
  cases hup with
  | here => cases hlocal
  | there hremote hhost => exact ⟨hremote, _, hhost, rfl⟩

/-- **One of several**: of elements that are apart, one alone is taken to a place. -/
theorem count_filterMap_eq_one {α β : Type} [DecidableEq β] {R : α → α → Prop} {l : List α}
    {f : α → Option β} {a : α} {y : β} (hl : l.Pairwise R) (ha : a ∈ l) (hfa : f a = some y)
    (hother : ∀ b ∈ l, R a b ∨ R b a → f b ≠ some y) : (l.filterMap f).count y = 1 := by
  obtain ⟨pre, post, rfl⟩ := append_of_mem ha
  obtain ⟨-, hpost, hpre⟩ := pairwise_append.mp hl
  rw [filterMap_append, filterMap_cons_some hfa, count_append, count_cons_self,
    count_eq_zero.mpr, count_eq_zero.mpr]
  · rw [mem_filterMap]
    rintro ⟨b, hb, hfb⟩
    exact hother b (by simp [hb]) (.inl ((pairwise_cons.mp hpost).1 b hb)) hfb
  · rw [mem_filterMap]
    rintro ⟨b, hb, hfb⟩
    exact hother b (by simp [hb]) (.inr (hpre b hb a mem_cons_self)) hfb

/-- **When `StopAll` stops what was started**: with at most one host, no remote start on record
before, and services that are apart, every service that a `StartAll` brought up and did not roll
back gets exactly one Down, addressed to the place and the compose file it runs at, if and only if
no Down that the `StartAll` sent to a host failed. -/
theorem stopAll_after_startAll_iff (henv : Lists m env)
    (hone : o.remoteEnabled = false ∨ m.listHosts.length ≤ 1) (hfresh : NoneRemote o)
    (hapart : o.services.Pairwise (Apart o m.listHosts))
    (hrun : (o.startAll files).run env t = (r, t')) :
    (∀ s ∈ r.left, s.svc ∈ o.services ∧ Sent t' s.svc s.upAt) ∧
    ((∀ s ∈ r.left, (issued t' (r.orch.stopAll.run env t').2).count s.upAt = 1) ↔
      ∀ site ∈ failedDowns t t', site.isLocal = true) := by
  obtain ⟨hended, hrec, hservices, hfailed, -⟩ := startAll_facts henv hone hrun
  have hleftrec := fun s hs => hrec s (hended.left_mem_started s hs)
  refine ⟨fun s hs => ⟨(hleftrec s hs).mem, (hleftrec s hs).sent⟩, ?_⟩
  rw [issued_stopAll, hservices, hfailed]
  -- a service that is apart is not torn down at the compose file of another one
  have hown : ∀ s ∈ r.left, ∀ b, Apart o m.listHosts s.svc b ∨ Apart o m.listHosts b s.svc →
      s.upAt ≠ .onLocal (o.composePath b) := by
    intro s hs b hapart hup
    have hlocal := (hleftrec s hs).isLocal_iff.mp (by rw [hup]; rfl)
    rw [hup] at hlocal
    exact (hapart.elim id Apart.symm).1 (Site.onLocal.inj hlocal).symm
  cases hended with
  | refused _ hleft _ => simp [hleft]
  | done herr hleft horch =>
    refine iff_of_true (fun s hs => ?_) (by simp [herr])
    have hs' := hleft ▸ hs
    have hnames : o.remoteEnabled = true → (o.services.map (·.name)).Nodup := fun hremote =>
      pairwise_map.mpr (hapart.imp fun h => (h.2 hremote).1)
    obtain ⟨m', hm', -⟩ := foldl_trackStarted r.started o
    rw [horch]
    refine count_filterMap_eq_one hapart (hrec s hs').mem (stopTarget_of_done hrec hone
      (fun hremote => startAll_nodup (hnames hremote) hrun) hs') fun b hb hab htarget => ?_
    rw [hm', (hrec s hs').stopTarget_eq_iff] at htarget
    rcases htarget with ⟨-, hup⟩ | hsite
    · exact hown s hs b hab hup
    -- the record is that of the other service, which runs at another site
    obtain ⟨hremote, host, hhost, hup⟩ := (hrec s hs').remote_of_not_isLocal
      (isLocal_of_recordedSite hsite)
    obtain ⟨s₂, hs₂, hname, hup₂⟩ := exists_of_recordedSite hrec hone (hfresh b hb)
      (by rw [hm']; exact hsite)
    have hsvc := inj_on_of_nodup_map (hnames hremote) (hrec s₂ hs₂).mem hb hname
    obtain ⟨-, host₂, -, hup₂'⟩ := (hrec s₂ hs₂).remote_of_not_isLocal
      (hup₂ ▸ isLocal_of_recordedSite hsite)
    have hsame := hup.symm.trans (hup₂.symm.trans hup₂')
    have hhosts : host = host₂ := (Site.onHost.inj hsame).1
    rw [hsvc, ← hhosts] at hsame
    exact ((hab.elim id Apart.symm).2 hremote).2 host hhost hsame
  | rolledBack m' herr hleft horch hm =>
    have hnone : ∀ b ∈ o.services, recordedSite m' b.name = none := fun b hb =>
      recordedSite_of_rolledBack hm (hfresh b hb)
    have htarget : ∀ s ∈ r.left, ∀ b ∈ o.services, (r.orch.stopTarget b = some s.upAt ↔
        s.upAt = .onLocal (o.composePath b)) := by
      intro s hs b hb
      rw [horch, (hleftrec s hs).stopTarget_eq_iff, hnone b hb]
      simp
    rw [if_neg herr, forall_mem_map]
    refine forall₂_congr fun s hs => ⟨fun hcount => ?_, fun hlocal => ?_⟩
    · have hmem : s.upAt ∈ o.services.filterMap r.orch.stopTarget :=
        count_pos_iff.mp (by omega)
      obtain ⟨b, hb, hb'⟩ := mem_filterMap.mp hmem
      rw [(htarget s hs b hb).mp hb']
      rfl
    · have hs' := hleftrec s hs
      exact count_filterMap_eq_one hapart hs'.mem ((htarget s hs _ hs'.mem).mpr
        (hs'.isLocal_iff.mp hlocal)) fun b hb hab hb' =>
          hown s hs b hab ((htarget s hs b hb).mp hb')

/-- **When a `StartAll` leaves nothing out of reach**: with names that do not repeat and at most
one host, every service that it started has had a successful Down, or a `StopAll` called next issues
a Down for where it runs, if no Down of the `StartAll` fails; and, with no remote start on record
before, if and only if every site on a host for which a Down failed had another that succeeded. -/
theorem startAll_in_reach_iff (hnames : (o.services.map (·.name)).Nodup) (henv : Lists m env)
    (hone : o.remoteEnabled = false ∨ m.listHosts.length ≤ 1)
    (hrun : (o.startAll files).run env t = (r, t')) :
    (failedDowns t t' = [] → ∀ s ∈ r.started,
      s.upAt ∈ tornDown t t' ∨ s.upAt ∈ issued t' (r.orch.stopAll.run env t').2) ∧
    (NoneRemote o →
      ((∀ s ∈ r.started,
          s.upAt ∈ tornDown t t' ∨ s.upAt ∈ issued t' (r.orch.stopAll.run env t').2) ↔
        ∀ site ∈ failedDowns t t', site.isLocal = true ∨ site ∈ tornDown t t')) := by
  obtain ⟨hended, hrec, hservices, hfailed, htorn⟩ := startAll_facts henv hone hrun
  rw [issued_stopAll, hservices, hfailed]
  -- it is left to reach what is left running
  have hleft : (∀ s ∈ r.left, s.upAt ∈ tornDown t t' ∨
      s.upAt ∈ o.services.filterMap r.orch.stopTarget) → ∀ s ∈ r.started,
        s.upAt ∈ tornDown t t' ∨ s.upAt ∈ o.services.filterMap r.orch.stopTarget :=
    fun h s hs => (htorn s hs).elim (h s) .inl
  cases hended with
  | refused _ hnone _ => exact ⟨fun _ => hleft (by simp [hnone]), fun _ =>
      iff_of_true (hleft (by simp [hnone])) (by simp [hnone])⟩
  | done herr hall horch =>
    have hreached := hleft fun s hs => .inr (mem_filterMap.mpr ⟨s.svc,
      (hrec s (hall ▸ hs)).mem, horch ▸ stopTarget_of_done hrec hone
        (fun _ => startAll_nodup hnames hrun) (hall ▸ hs)⟩)
    exact ⟨fun _ => hreached, fun _ => iff_of_true hreached (by simp [herr])⟩
  | rolledBack m' herr hmem horch hm =>
    rw [if_neg herr, forall_mem_map]
    refine ⟨fun hnone => hleft fun s hs => ?_, fun hfresh => ?_⟩
    · rw [map_eq_nil_iff.mp hnone] at hs
      cases hs
    have htarget : ∀ s ∈ r.left, (s.upAt ∈ o.services.filterMap r.orch.stopTarget ↔
        s.upAt.isLocal = true) := by
      intro s hs
      have hs' := hrec s (hmem s hs)
      rw [mem_filterMap]
      constructor
      · rintro ⟨b, hb, htarget⟩
        rw [horch, hs'.stopTarget_eq_iff, recordedSite_of_rolledBack hm (hfresh b hb)] at htarget
        rw [(htarget.resolve_right (by simp)).2]
        rfl
      · intro hlocal
        refine ⟨s.svc, hs'.mem, ?_⟩
        rw [horch, hs'.stopTarget_eq_iff, recordedSite_of_rolledBack hm (hfresh _ hs'.mem)]
        exact .inl ⟨rfl, hs'.isLocal_iff.mp hlocal⟩
    constructor
    · intro h s hs
      exact (h s (hmem s hs)).symm.imp_left (htarget s hs).mp
    · intro h
      exact hleft fun s hs => (h s hs).symm.imp_right (htarget s hs).mpr

/-! ### Three boots -/

/-- The host, the directory and the file of a site, by name. -/
def Site.key : Site → String × String × String
  | .onLocal file => ("", "", file)
  | .onHost host dest file => (host.name, dest, file)

/-- Two services of one name, with compose files of their own, to be started remotely. -/
def replicas : DefaultOrchestrator where
  services := [plain "web" "/srv/a/compose.yml" [], plain "web" "/srv/b/compose.yml" []]
  remoteExec := true
  hostMgr := true

/-- Surroundings with one host, on which everything goes well. -/
def oneHost : Surroundings := rotating (registering [alpha]).listHosts

theorem lists_oneHost : Lists (registering [alpha]) oneHost := lists_rotating _

/-- **A service that came up is not stopped**: the two services of one name run in directories of
their own, and both Downs go to the second. -/
theorem stopAll_misses_replica :
    ∃ o files m env r t', o.startedByName = ∅ ∧ Lists m env ∧ m.listHosts.length = 1 ∧
      (startAll o files).run env [] = (r, t') ∧ r.err = none ∧
      ∃ s ∈ r.left, s.upAt ∉ issued t' (r.orch.stopAll.run env t').2 := by
  let x := (replicas.startAll fun _ => true).run oneHost []
  have hleft : ("alpha", "/home/ops/helixagent/a", "compose.yml") ∈
      x.1.left.map (fun s => s.upAt.key) := by decide +kernel
  have hissued : ("alpha", "/home/ops/helixagent/a", "compose.yml") ∉
      (issued x.2 (x.1.orch.stopAll.run oneHost x.2).2).map Site.key := by decide +kernel
  obtain ⟨s, hs, hkey⟩ := mem_map.mp hleft
  refine ⟨replicas, _, _, _, x.1, x.2, rfl, lists_oneHost, rfl, rfl, by decide +kernel, s, hs,
    fun hmem => hissued ?_⟩
  rw [← hkey]
  exact mem_map_of_mem hmem

def webAndStore : DefaultOrchestrator where
  services := [plain "web" "/srv/web/compose.yml" [],
    { name := "db", composeFile := "/srv/db/compose.yml", required := true }]
  remoteExec := true
  hostMgr := true

/-- Two services with names and compose files of their own are both stopped on the host. -/
theorem stopAll_after_startAll_webAndStore :
    ∃ r t', (webAndStore.startAll fun _ => true).run oneHost [] = (r, t') ∧ r.left.length = 2 ∧
      ∀ s ∈ r.left, (issued t' (r.orch.stopAll.run oneHost t').2).count s.upAt = 1 := by
  let x := (webAndStore.startAll fun _ => true).run oneHost []
  have hfailed : failedDowns [] x.2 = [] := by
    have hkeys : (failedDowns [] x.2).map Site.key = [] := by decide +kernel
    exact map_eq_nil_iff.mp hkeys
  refine ⟨x.1, x.2, rfl, by decide +kernel, ?_⟩
  refine (stopAll_after_startAll_iff lists_oneHost (.inr le_rfl) (fun _ _ => rfl)
    (pairwise_pair.mpr ⟨by decide +kernel, fun _ => ⟨by decide, fun host hhost hsite => ?_⟩⟩)
    rfl).2.mpr ?_
  · rw [hfailed]
    exact forall_mem_nil _
  · cases mem_singleton.mp (show host ∈ [alpha] from hhost)
    exact absurd (congrArg Site.key hsite) (by decide +kernel)

/-- Surroundings with one host, where the store does not come up and nothing can be torn down. -/
def storeFails : Surroundings := fun t c =>
  match c with
  | .execute _ (.compose dest _ _ .up) =>
    if dest = "/home/ops/helixagent/db" then .error "compose up failed" else .ok {}
  | .execute _ (.compose _ _ _ .down) => .error "connection lost"
  | .localUp file _ => if file = "/srv/db/compose.yml" then some "compose up failed" else none
  | .localDown _ _ => some "compose down failed"
  | c => oneHost t c

theorem lists_storeFails : Lists (registering [alpha]) storeFails := lists_oneHost

/-- **A service is left running where nothing reaches it**: its rollback fails, and the `StopAll`
that follows issues no Down at all. -/
theorem startAll_leaves_out_of_reach :
    ∃ o files m env r t', (o.services.map (·.name)).Nodup ∧ o.startedByName = ∅ ∧ Lists m env ∧
      m.listHosts.length = 1 ∧ (startAll o files).run env [] = (r, t') ∧
      r.started.length = 1 ∧ tornDown [] t' = [] ∧
      issued t' (r.orch.stopAll.run env t').2 = [] := by
  let x := (webAndStore.startAll fun _ => true).run storeFails []
  have htorn : (tornDown [] x.2).map Site.key = [] := by decide +kernel
  have hissued : (issued x.2 (x.1.orch.stopAll.run storeFails x.2).2).map Site.key = [] := by
    decide +kernel
  exact ⟨webAndStore, _, _, _, x.1, x.2, by decide +kernel, rfl, lists_storeFails, rfl, rfl,
    by decide +kernel, map_eq_nil_iff.mp htorn, map_eq_nil_iff.mp hissued⟩

/-- On this machine, what could not be rolled back is in the reach of `StopAll`. -/
theorem startAll_in_reach_webAndStore :
    let o : DefaultOrchestrator :=
      { webAndStore with localOrch := true, remoteExec := false, hostMgr := false }
    ∃ r t', (o.startAll fun _ => true).run storeFails [] = (r, t') ∧ r.left.length = 1 ∧
      ∀ s ∈ r.started, s.upAt ∈ tornDown [] t' ∨
        s.upAt ∈ issued t' (r.orch.stopAll.run storeFails t').2 := by
  intro o
  let x := (o.startAll fun _ => true).run storeFails []
  refine ⟨x.1, x.2, rfl, by decide +kernel, ?_⟩
  refine ((startAll_in_reach_iff (by decide +kernel) lists_storeFails (.inl rfl) rfl).2
    fun _ _ => rfl).mpr fun site hsite => .inl ?_
  have hlocal : (failedDowns [] x.2).map Site.isLocal = [true] := by decide +kernel
  have hmem := mem_map_of_mem (f := Site.isLocal) hsite
  rw [hlocal] at hmem
  exact mem_singleton.mp hmem

end Calls

end Containers.Orchestrator
