import Containers.Orchestrator.Skips
import Containers.Remote.HostManager

/-!
# Where services are started, and where they are recorded

A remote start goes to the first host of one listing, and what is recorded of it is the first host
of *another* one: `resolveRemoteStartInfo` asks for the hosts again. The registry walks a map, so it
may list them in another order, and then the record names a host that the service was never started
on.

This module says what every start record is (`Recorded`): the service was brought up on this machine
and is recorded so, or was brought up on one of the listed hosts and is recorded on one of them.
Whatever the calls, the records agree with the places exactly if no listing has a choice, that is,
if at most one host is registered (`recorded_where_started_iff`).
-/

namespace Containers.Orchestrator

open Go Remote DefaultOrchestrator Prog List AList Option

variable {m : GoMap String StartedService} {remote : Option RemoteStartInfo} {composeAbs : String}
  {s : StartedService} {t' : History} {upAt : Site}

/-! ### What a start leaves -/

def Listed (hosts : List RemoteHost) : Event Outcome → Prop
  | ⟨.listHosts, listed⟩ => Perm listed hosts
  | _ => True

/-- **How a service was brought up**: on this machine, with nothing recorded of a host; or on one
of the hosts, with one of them recorded. -/
inductive BroughtUp (o : DefaultOrchestrator) (hosts : List RemoteHost) (composeAbs : String) :
    Option RemoteStartInfo → Site → Prop
  | here (hlocal : o.localOrch = true) : BroughtUp o hosts composeAbs none (.onLocal composeAbs)
  | there {host host' : RemoteHost} (hremote : o.remoteEnabled = true) (hhost : host ∈ hosts)
    (hhost' : host' ∈ hosts) :
    BroughtUp o hosts composeAbs (some ⟨host', remoteServiceDest host' composeAbs⟩)
      (siteOf composeAbs (some ⟨host, remoteServiceDest host composeAbs⟩))

/-- The compose up of the service was sent to the site, and succeeded. -/
def Sent (t : History) (svc : Service) : Site → Prop
  | .onLocal file => ⟨.localUp file svc.profile, (none : Option String)⟩ ∈ t
  | .onHost host dest file => ∃ r : CommandResult, r.exitCode = 0 ∧
    ⟨.execute host (.compose dest file svc.profile .up),
    (Except.ok r : Except String CommandResult)⟩ ∈ t

theorem Sent.of_suffix {svc : Service} {site : Site} (h : Sent t svc site)
    (ht : t <:+ t') : Sent t' svc site := by
  rcases site with file | ⟨host, dest, file⟩
  · exact ht.mem h
  · obtain ⟨r, hr, hmem⟩ := h
    exact ⟨r, hr, ht.mem hmem⟩

/-- **A start record**: of a registered service, that was brought up and whose compose up is in
the history. -/
structure Recorded (o : DefaultOrchestrator) (hosts : List RemoteHost) (t : History)
    (s : StartedService) : Prop where
  mem : s.svc ∈ o.services
  path : s.composeAbs = o.composePath s.svc
  up : BroughtUp o hosts s.composeAbs s.remote s.upAt
  sent : Sent t s.svc s.upAt

theorem Recorded.of_suffix {o : DefaultOrchestrator} {hosts : List RemoteHost}
    (h : Recorded o hosts t s) (ht : t <:+ t') : Recorded o hosts t' s :=
  ⟨h.mem, h.path, h.up, h.sent.of_suffix ht⟩

/-! ### Starting a service -/

variable {o : DefaultOrchestrator} {hosts : List RemoteHost} {svc : Service} {path : String}
  {S : History → Event Outcome → Prop} {files : String → Bool} {t : History}

theorem wp_startLocal (t : History) :
    (o.startLocal svc path).wp S
      (fun err t' => err = none → o.localOrch = true ∧ Sent t' svc (.onLocal path)) t := by
  rw [startLocal]
  by_cases hlocal : o.localOrch = true
  · rw [if_neg (by simp [hlocal])]
    rintro err - rfl
    exact ⟨hlocal, mem_cons_self⟩
  · rw [if_pos (by simp [hlocal])]
    rintro ⟨⟩

theorem wp_startRemote (t : History) :
    (o.startRemote svc path).wp (fun _ => Listed hosts)
      (fun r t' => ∀ place, r = .ok place → ∃ host ∈ hosts,
        place = ⟨host, remoteServiceDest host path⟩ ∧
        Sent t' svc (siteOf path (some place))) t := by
  rw [startRemote]
  by_cases hconf : (!o.hostMgr || !o.remoteExec) = true
  · rw [if_pos hconf]
    rintro _ ⟨⟩
  rw [if_neg hconf]
  refine wp_seam ?_
  rintro (_ | ⟨host, rest⟩) hlisted
  · rintro _ ⟨⟩
  have hhost : host ∈ hosts := (Perm.mem_iff hlisted).mp mem_cons_self
  refine wp_seam ?_
  rintro (err | made) -
  · rintro _ ⟨⟩
  dsimp only
  by_cases hmade : made.exitCode = 0
  · rw [if_neg (not_not.mpr hmade)]
    refine wp_seam ?_
    rintro (_ | err) -
    · refine wp_seam ?_
      rintro (err | up) -
      · rintro _ ⟨⟩
      dsimp only
      by_cases hup : up.exitCode = 0
      · rw [if_neg (not_not.mpr hup)]
        rintro _ ⟨⟩
        exact ⟨host, hhost, rfl, up, hup, mem_cons_self⟩
      · rw [if_pos hup]
        rintro _ ⟨⟩
    · rintro _ ⟨⟩
  · rw [if_pos hmade]
    rintro _ ⟨⟩

theorem wp_resolveRemoteStartInfo {host : RemoteHost} (hremote : o.remoteEnabled = true)
    (hhost : host ∈ hosts) (t : History) :
    (o.resolveRemoteStartInfo path).wp (fun _ => Listed hosts) (fun info _ =>
      BroughtUp o hosts path info (siteOf path (some ⟨host, remoteServiceDest host path⟩))) t := by
  have hmgr : o.hostMgr = true := (Bool.and_eq_true_iff.mp hremote).1
  rw [resolveRemoteStartInfo, if_neg (by simp [hmgr])]
  refine wp_seam ?_
  rintro (_ | ⟨host', rest⟩) hlisted
  · exact absurd ((Perm.mem_iff hlisted).mpr hhost) not_mem_nil
  · exact .there hremote hhost ((Perm.mem_iff hlisted).mp mem_cons_self)

theorem wp_launchLocal (t : History) :
    (o.launchLocal svc path).wp S (fun r t' => ∀ up, r = .ok up →
      BroughtUp o hosts path up.remoteInfo up.upAt ∧ Sent t' svc up.upAt) t := by
  refine (wp_startLocal t).bind ?_
  rintro (_ | err) t' hup up h
  · obtain ⟨hlocal, hsent⟩ := hup rfl
    cases h
    exact ⟨.here hlocal, hsent⟩
  · cases h

/-- **A service that is launched is brought up**, here or on one of the hosts. -/
theorem wp_launch (t : History) :
    (o.launch svc path).wp (fun _ => Listed hosts) (fun r t' => ∀ up, r = .ok up →
      BroughtUp o hosts path up.remoteInfo up.upAt ∧ Sent t' svc up.upAt) t := by
  rw [launch]
  by_cases hremote : o.remoteEnabled = true
  · rw [if_pos hremote]
    refine (wp_startRemote t).bind ?_
    rintro (err | place) t' hplace
    · exact wp_launchLocal t'
    · obtain ⟨host, hhost, rfl, hsent⟩ := hplace place rfl
      refine ((wp_resolveRemoteStartInfo hremote hhost t').and (wp_suffix _ t')).bind ?_
      rintro info t'' ⟨hbrought, hsuffix⟩ _ ⟨⟩
      exact ⟨hbrought, hsent.of_suffix hsuffix⟩
  · rw [if_neg hremote]
    exact wp_launchLocal t

/-- **The goroutine of a service** hands over a record of how it was brought up. -/
theorem wp_start (hsvc : svc ∈ o.services) (t : History) :
    (o.start svc (o.composePath svc)).wp (fun _ => Listed hosts)
      (fun r t' => ∀ s, r.started = some s → Recorded o hosts t' s) t := by
  refine (wp_launch t).bind ?_
  rintro (err | up) t' hup
  · rintro _ ⟨⟩
  · obtain ⟨hbrought, hsent⟩ := hup up rfl
    refine (wp_suffix _ t').bind ?_
    rintro healthErr t'' hsuffix _ ⟨⟩
    exact ⟨hsvc, rfl, hbrought, hsent.of_suffix hsuffix⟩

/-! ### The records of a boot -/

theorem Boot.drain_started (b : Boot) (r : StartOutcome) :
    (b.drain r).started = b.started ++ r.started.toList := by
  rcases r with ⟨s, _ | err, started⟩
  · rfl
  · show (Boot.fail _ s _).started ++ _ = _
    rw [Boot.fail]
    split <;> rfl

theorem foldl_visit_started (o : DefaultOrchestrator) (files : String → Bool)
    (level : List Service) (x : Boot × List (Service × String)) :
    (level.foldl (o.visit files) x).1.started = x.1.started ∧
      ∀ y ∈ (level.foldl (o.visit files) x).2,
        y ∈ x.2 ∨ y.1 ∈ level ∧ y.2 = o.composePath y.1 := by
  induction level generalizing x with
  | nil => exact ⟨rfl, fun y => .inl⟩
  | cons s level ih =>
    have hvisit : (o.visit files x s).1.started = x.1.started ∧
        ∀ y ∈ (o.visit files x s).2, y ∈ x.2 ∨ y = (s, o.composePath s) := by
      rw [visit]
      split
      · refine ⟨?_, fun y => .inl⟩
        show (Boot.fail _ s _).started = _
        rw [Boot.fail]
        split <;> rfl
      · split
        · exact ⟨rfl, fun y => .inl⟩
        · exact ⟨rfl, fun y hy => by simpa using hy⟩
    obtain ⟨hstarted, hlaunched⟩ := ih (o.visit files x s)
    refine ⟨hstarted.trans hvisit.1, fun y hy => ?_⟩
    rcases hlaunched y hy with hy | ⟨hy, hpath⟩
    · rcases hvisit.2 y hy with hy | rfl
      · exact .inl hy
      · exact .inr ⟨mem_cons_self, rfl⟩
    · exact .inr ⟨mem_cons_of_mem s hy, hpath⟩

/-- Every record of the boot is one of a service that was brought up. -/
def AllRecorded (o : DefaultOrchestrator) (hosts : List RemoteHost) (t : History) (b : Boot) :
    Prop := ∀ s ∈ b.started, Recorded o hosts t s

theorem wp_bootLevel_recorded {level : List Service} (hlevel : ∀ s ∈ level, s ∈ o.services)
    {b : Boot} (h : AllRecorded o hosts t b) :
    (o.bootLevel files b level).wp (fun _ => Listed hosts)
      (fun b' t' => AllRecorded o hosts t' b') t := by
  obtain ⟨hstarted, hlaunched⟩ := foldl_visit_started o files level (b, [])
  refine wp_seam ?_
  rintro order -
  refine wp_foldlM (fun _ b t => AllRecorded o hosts t b) ?_ ?_
  · rintro s hs
    rw [hstarted] at hs
    exact (h s hs).of_suffix (suffix_cons _ _)
  · rintro done ⟨s, path⟩ rest b t hsplit hb
    have hmem : (s, path) ∈ order.1 := hsplit ▸ mem_append_right _ mem_cons_self
    obtain hnil | ⟨hs, hpath : path = o.composePath s⟩ := hlaunched _ (order.2.mem_iff.mp hmem)
    · cases hnil
    subst hpath
    refine ((wp_start (hlevel s hs) t).and (wp_suffix _ t)).bind ?_
    rintro r t' ⟨hr, hsuffix⟩ s' hs'
    rw [Boot.drain_started, mem_append, mem_toList] at hs'
    exact hs'.elim (fun hs' => (hb s' hs').of_suffix hsuffix) (hr s')

/-- **A rollback** drops the records of the names that it tears down, and leaves the others; what
it leaves running was started. -/
theorem wp_rollback {S : History → Event Outcome → Prop} (started : List StartedService)
    (t : History) :
    (o.rollback started).wp S (fun x _ => (∀ s ∈ x.left, s ∈ started) ∧
      ∃ m, x.orch = { o with startedByName := m } ∧ ∀ name, m.lookup name =
        if name ∈ x.down.map (·.svc.name) then none else o.startedByName.lookup name) t := by
  refine wp_foldlM (fun done (x : RollingBack) _ =>
    (∀ s ∈ x.left, s ∈ done) ∧ ∃ m, x.orch = { o with startedByName := m } ∧ ∀ name,
      m.lookup name = if name ∈ x.down.map (·.svc.name) then none else o.startedByName.lookup name)
    ⟨fun _ h => h, o.startedByName, rfl, fun _ => rfl⟩ ?_
  rintro done s rest x t - ⟨hleft, m, horch, hm⟩
  have hleft' : ∀ s' ∈ x.left, s' ∈ done ++ [s] := fun s' hs' => mem_append_left _ (hleft s' hs')
  rw [rollbackOne, wp_bind]
  refine wp_of_forall ?_ t
  rintro (_ | err) t'
  · refine ⟨hleft', m.erase s.svc.name, by rw [horch]; rfl, fun name => ?_⟩
    by_cases hname : name = s.svc.name
    · rw [hname, lookup_erase, if_pos (by simp)]
    · rw [lookup_erase_ne hname, hm name]
      simp [hname]
  · refine ⟨fun s' hs' => ?_, m, horch, hm⟩
    rcases mem_append.mp hs' with hs' | hs'
    · exact hleft' s' hs'
    · exact mem_append_right _ hs'

theorem foldl_trackStarted (started : List StartedService) (o : DefaultOrchestrator) :
    ∃ m, started.foldl trackStarted o = { o with startedByName := m } ∧
      ∀ name s, m.lookup name = some s →
        o.startedByName.lookup name = some s ∨ s ∈ started := by
  induction started generalizing o with
  | nil => exact ⟨o.startedByName, rfl, fun _ _ => .inl⟩
  | cons s started ih =>
    obtain ⟨m, horch, hm⟩ := ih (o.trackStarted s)
    refine ⟨m, horch, fun name s' hs' => ?_⟩
    rcases hm name s' hs' with hs' | hs'
    · rcases GoMap.lookup_insert_iff.mp hs' with ⟨-, rfl⟩ | ⟨-, hs'⟩
      · exact .inr mem_cons_self
      · exact .inl hs'
    · exact .inr (mem_cons_of_mem s hs')

/-- **What a call leaves on record**: what was there before, and what the call started, which is
recorded as it was brought up. -/
structure Leaves (o : DefaultOrchestrator) (hosts : List RemoteHost) (t : History)
    (orch : DefaultOrchestrator) (started : List StartedService) : Prop where
  tracked : ∃ m, orch = { o with startedByName := m } ∧ ∀ name s, m.lookup name = some s →
    o.startedByName.lookup name = some s ∨ s ∈ started
  recorded : ∀ s ∈ started, Recorded o hosts t s

theorem leaves_self {started : List StartedService} (h : ∀ s ∈ started, Recorded o hosts t s) :
    Leaves o hosts t o started :=
  ⟨⟨o.startedByName, rfl, fun _ _ => .inl⟩, h⟩

/-- **`StartAll`.** -/
theorem wp_startAll_recorded (t : History) :
    (o.startAll files).wp (fun _ => Listed hosts)
      (fun r t' => Leaves o hosts t' r.orch r.started) t := by
  refine wp_startAll (fun _ b t => AllRecorded o hosts t b) ?_ ?_ ?_ ?_ ?_
  · exact fun e => leaves_self (forall_mem_nil _)
  · rintro levels - s hs
    cases hs
  · intro levels done level later b t hlev hsplit hb
    refine wp_bootLevel_recorded (fun s hs => hlev.perm.mem_iff.mp ?_) hb
    exact mem_flatten.mpr ⟨level, hsplit ▸ mem_append_right _ mem_cons_self, hs⟩
  · intro b t e hb
    refine ((wp_rollback b.started t).and (wp_suffix _ t)).mono ?_
    rintro x t' ⟨⟨-, m, horch, hm⟩, hsuffix⟩
    refine ⟨⟨m, horch, fun name s hs => .inl ?_⟩, fun s hs => (hb s hs).of_suffix hsuffix⟩
    rw [hm name] at hs
    exact (ite_none_left_eq_some.mp hs).2
  · exact fun {b t} hb => ⟨foldl_trackStarted b.started o, hb⟩

/-- **`StartService`.** -/
theorem wp_startService_recorded (name : String) (t : History) :
    (o.startService name).wp (fun _ => Listed hosts)
      (fun r t' => Leaves o hosts t' r.2.1 r.2.2.toList) t := by
  rw [startService]
  rcases hfind : o.findService name with _ | target
  · exact leaves_self (forall_mem_nil _)
  have htarget : target ∈ o.services := mem_of_find?_eq_some hfind
  dsimp only
  by_cases hremote : o.remoteEnabled = true
  · rw [if_pos hremote]
    refine (wp_startRemote t).bind ?_
    rintro (err | place) t' hplace
    · exact leaves_self (forall_mem_nil _)
    obtain ⟨host, hhost, rfl, hsent⟩ := hplace place rfl
    refine ((wp_resolveRemoteStartInfo hremote hhost t').and (wp_suffix _ t')).bind ?_
    rintro info t₁ ⟨hbrought, hsuffix⟩
    refine (wp_suffix _ t₁).bind fun err t₂ hsuffix' => ?_
    exact ⟨foldl_trackStarted [_] o, forall_mem_singleton.mpr
      ⟨htarget, rfl, hbrought, hsent.of_suffix (hsuffix.trans hsuffix')⟩⟩
  · rw [if_neg hremote]
    refine (wp_startLocal t).bind ?_
    rintro (_ | err) t' hup
    · obtain ⟨hlocal, hsent⟩ := hup rfl
      refine (wp_suffix _ t').bind ?_
      have hrecorded : ∀ t'', t' <:+ t'' → ∀ s ∈ [(⟨target, o.composePath target, none,
          .onLocal (o.composePath target)⟩ : StartedService)], Recorded o hosts t'' s :=
        fun t'' hsuffix => forall_mem_singleton.mpr
          ⟨htarget, rfl, .here hlocal, hsent.of_suffix hsuffix⟩
      rintro (_ | err) t'' hsuffix
      · exact ⟨foldl_trackStarted [_] o, hrecorded t'' hsuffix⟩
      · exact leaves_self (hrecorded t'' hsuffix)
    · exact leaves_self (forall_mem_nil _)

/-! ### Sequences of starts -/

section Sequences

variable {o : DefaultOrchestrator} {hosts : List RemoteHost}

/-- A call that starts services; of a `StartAll`, with the compose files that are there. -/
inductive StartCall where
  | startAll (files : String → Bool)
  | startService (name : String)

/-- One call: the orchestrator after it, and the records of what it started. -/
def StartCall.act (o : DefaultOrchestrator) :
    StartCall → Act (DefaultOrchestrator × List StartedService)
  | .startAll files => do
    let r ← o.startAll files
    pure (r.orch, r.started)
  | .startService name => do
    let r ← o.startService name
    pure (r.2.1, r.2.2.toList)

/-- One call after another, with the records of all of them. -/
def startCalls (o : DefaultOrchestrator) (calls : List StartCall) :
    Act (DefaultOrchestrator × List StartedService) :=
  calls.foldlM (fun x c => do
    let y ← c.act x.1
    pure (y.1, x.2 ++ y.2)) (o, [])

theorem BroughtUp.of_startedByName
    (h : BroughtUp { o with startedByName := m } hosts composeAbs remote upAt) :
    BroughtUp o hosts composeAbs remote upAt := by
  cases h with
  | here hlocal => exact .here hlocal
  | there hremote hhost hhost' => exact .there hremote hhost hhost'

theorem Recorded.of_startedByName
    (h : Recorded { o with startedByName := m } hosts t s) : Recorded o hosts t s :=
  ⟨h.mem, h.path, h.up.of_startedByName, h.sent⟩

theorem StartCall.wp_act (c : StartCall) (t : History) :
    (c.act o).wp (fun _ => Listed hosts)
      (fun y t' => Leaves o hosts t' y.1 y.2) t := by
  rcases c with files | name
  · exact (wp_startAll_recorded t).bind fun _ _ h => h
  · exact (wp_startService_recorded name t).bind fun _ _ h => h

/-- **Whatever the calls**, all that they started is recorded as it was brought up, and nothing
else is tracked. -/
theorem wp_startCalls (hfresh : o.startedByName = ∅) (calls : List StartCall) (t : History) :
    (startCalls o calls).wp (fun _ => Listed hosts)
      (fun x t' => (∀ name s, x.1.startedByName.lookup name = some s → s ∈ x.2) ∧
        ∀ s ∈ x.2, Recorded o hosts t' s) t := by
  refine wp.mono (wp_foldlM (fun _ (x : DefaultOrchestrator × List StartedService) t' =>
    (∃ m, x.1 = { o with startedByName := m } ∧ ∀ name s, m.lookup name = some s → s ∈ x.2) ∧
      ∀ s ∈ x.2, Recorded o hosts t' s) ?_ ?_) ?_
  · refine ⟨⟨∅, by rw [← hfresh], fun name s hs => ?_⟩, fun s hs => by cases hs⟩
    cases hs
  · rintro done c rest x t - ⟨⟨m, horch, hm⟩, hx⟩
    refine ((c.wp_act t).and (wp_suffix _ t)).bind ?_
    rintro y t' ⟨⟨⟨m', horch', hm'⟩, hy⟩, hsuffix⟩
    refine ⟨⟨m', by rw [horch', horch], fun name s hs => ?_⟩, fun s hs => ?_⟩
    · rcases hm' name s hs with hs | hs
      · rw [horch] at hs
        exact mem_append_left _ (hm name s hs)
      · exact mem_append_right _ hs
    · rcases mem_append.mp hs with hs | hs
      · exact (hx s hs).of_suffix hsuffix
      · have hrec := hy s hs
        rw [horch] at hrec
        exact hrec.of_startedByName
  · rintro x t' ⟨⟨m, horch, hm⟩, hx⟩
    refine ⟨fun name s hs => hm name s ?_, hx⟩
    rw [horch] at hs
    exact hs

theorem BroughtUp.siteOf_eq
    (h : BroughtUp o hosts composeAbs remote upAt)
    (hone : o.remoteEnabled = false ∨ hosts.length ≤ 1) : siteOf composeAbs remote = upAt := by
  cases h with
  | here => rfl
  | there hremote hhost hhost' =>
    rcases hone with hone | hone
    · rw [hremote] at hone
      cases hone
    · obtain ⟨host, rfl⟩ := length_eq_one_iff.mp
        (le_antisymm hone (length_pos_of_mem hhost))
      rw [mem_singleton.mp hhost, mem_singleton.mp hhost']

def Lists (m : DefaultHostManager) (env : Surroundings) : Prop :=
  ∀ t, Perm (env t .listHosts) m.listHosts

theorem Lists.listed {m : DefaultHostManager} {env : Surroundings} (h : Lists m env) (t : History)
    (c : SeamCall) : Listed m.listHosts ⟨c, env t c⟩ := by
  cases c with
  | listHosts => exact h t
  | _ => trivial

/-- Surroundings in which all goes well, and the hosts are listed in another order from the
second time on. -/
def rotating (hosts : List RemoteHost) : Surroundings := fun t c =>
  match c with
  | .listHosts => if t.isEmpty then hosts else hosts.rotate 1
  | c => failing [] t c

theorem lists_rotating (m : DefaultHostManager) : Lists m (rotating m.listHosts) := by
  intro t
  show Perm (if t.isEmpty then m.listHosts else m.listHosts.rotate 1) m.listHosts
  split
  · rfl
  · exact rotate_perm _ 1

theorem run_startCalls_singleton (env : Surroundings) (c : StartCall) (t : History) :
    ((startCalls o [c]).run env t).1.2 = ((c.act o).run env t).1.2 := by
  rw [startCalls, foldlM_cons, run_bind, run_bind]
  rfl

section TwoHosts

variable (path : String) (host host' : RemoteHost) (rest : List RemoteHost)

theorem run_startRemote_rotating (svc : Service) (hremote : o.remoteEnabled = true) :
    ∃ t, t ≠ [] ∧ (o.startRemote svc path).run (rotating (host :: host' :: rest)) [] =
      (.ok ⟨host, remoteServiceDest host path⟩, t) := by
  obtain ⟨hmgr, hexec⟩ := Bool.and_eq_true_iff.mp hremote
  rw [startRemote, if_neg (by simp [hmgr, hexec])]
  exact ⟨_, cons_ne_nil _ _, rfl⟩

theorem run_resolveRemoteStartInfo_rotating (hremote : o.remoteEnabled = true) (ht : t ≠ []) :
    ((o.resolveRemoteStartInfo path).run (rotating (host :: host' :: rest)) t).1 =
      some ⟨host', remoteServiceDest host' path⟩ := by
  have hmgr : o.hostMgr = true := (Bool.and_eq_true_iff.mp hremote).1
  obtain ⟨e, t, rfl⟩ := exists_cons_of_ne_nil ht
  rw [resolveRemoteStartInfo, if_neg (by simp [hmgr])]
  rfl

/-- **With two hosts, a start can be recorded where it did not go.** -/
theorem exists_misrecorded {svc : Service} (hremote : o.remoteEnabled = true)
    (hsvc : svc ∈ o.services) :
    ∃ s ∈ ((startCalls o [.startService svc.name]).run (rotating (host :: host' :: rest)) []).1.2,
      s.site = siteOf s.composeAbs (some ⟨host', remoteServiceDest host' s.composeAbs⟩) ∧
      s.upAt = siteOf s.composeAbs (some ⟨host, remoteServiceDest host s.composeAbs⟩) := by
  obtain ⟨target, htarget⟩ : ∃ target, o.findService svc.name = some target := by
    rw [← isSome_iff_exists, findService, find?_isSome]
    exact ⟨svc, hsvc, by simp⟩
  obtain ⟨t, ht, hrun⟩ :=
    run_startRemote_rotating (o.composePath target) host host' rest target hremote
  have hresolve :=
    run_resolveRemoteStartInfo_rotating (o.composePath target) host host' rest hremote ht
  refine ⟨⟨target, o.composePath target,
    some ⟨host', remoteServiceDest host' (o.composePath target)⟩,
    siteOf (o.composePath target) (some ⟨host, remoteServiceDest host (o.composePath target)⟩)⟩,
    ?_, rfl, rfl⟩
  have hcall : ((o.startService svc.name).run (rotating (host :: host' :: rest)) []).1.2.2 =
      some ⟨target, o.composePath target,
        some ⟨host', remoteServiceDest host' (o.composePath target)⟩,
        siteOf (o.composePath target)
        (some ⟨host, remoteServiceDest host (o.composePath target)⟩)⟩ := by
    rw [startService, htarget]
    dsimp only
    rw [if_pos hremote, run_bind, hrun]
    rw [run_bind, hresolve, run_bind]
    rfl
  rw [run_startCalls_singleton, StartCall.act, run_bind]
  show _ ∈ toList _
  rw [hcall]
  exact mem_singleton_self _

end TwoHosts

/-- **When the records are right**: whatever the sequence of `StartAll` and `StartService` calls
and however the registry lists its hosts, every service is recorded at the host and the directory
that its compose up was executed on – if and only if remote starts are not enabled, at most one
host is registered, or there is no service to start. -/
theorem recorded_where_started_iff (o : DefaultOrchestrator) (hfresh : o.startedByName = ∅)
    (m : DefaultHostManager) :
    (∀ calls env, Lists m env → ∀ s ∈ ((startCalls o calls).run env []).1.2,
      Sent ((startCalls o calls).run env []).2 s.svc s.upAt) ∧
    ((∀ calls env, Lists m env →
        (∀ s ∈ ((startCalls o calls).run env []).1.2, s.site = s.upAt) ∧
        ∀ name s, ((startCalls o calls).run env []).1.1.startedByName.lookup name = some s →
          s.site = s.upAt) ↔
      o.remoteEnabled = false ∨ m.listHosts.length ≤ 1 ∨ o.services = []) := by
  have hall : ∀ calls env, Lists m env →
      (∀ name s, ((startCalls o calls).run env []).1.1.startedByName.lookup name = some s →
        s ∈ ((startCalls o calls).run env []).1.2) ∧
      ∀ s ∈ ((startCalls o calls).run env []).1.2,
        Recorded o m.listHosts ((startCalls o calls).run env []).2 s := fun calls env henv =>
    (wp_startCalls hfresh calls []).of_run_answered env henv.listed
  refine ⟨fun calls env henv s hs => ((hall calls env henv).2 s hs).sent, ⟨fun hright => ?_, ?_⟩⟩
  · -- with two hosts and a service, the record of its start is wrong
    by_contra hcon
    simp only [not_or, Bool.not_eq_false] at hcon
    obtain ⟨hremote, htwo, hne⟩ := hcon
    obtain ⟨svc, hsvc⟩ := exists_mem_of_ne_nil _ hne
    obtain ⟨host, host', rest, hhosts⟩ :
        ∃ host host' rest, m.listHosts = host :: host' :: rest := by
      rcases hlist : m.listHosts with _ | ⟨host, _ | ⟨host', rest⟩⟩
      · simp [hlist] at htwo
      · simp [hlist] at htwo
      · exact ⟨host, host', rest, rfl⟩
    have hdiff : host ≠ host' := by
      rintro rfl
      have hnodup := m.hosts.nodupKeys
      have hnames := m.listHosts_name
      rw [hhosts] at hnames
      have hkeys : m.hosts.keys.Nodup := hnodup
      rw [← hnames] at hkeys
      simp at hkeys
    obtain ⟨s, hs, hsite, hup⟩ := exists_misrecorded host host' rest hremote hsvc
    have heq := (hright [.startService svc.name] _ (lists_rotating m)).1 s (hhosts ▸ hs)
    rw [hsite, hup] at heq
    cases heq
    exact hdiff rfl
  · intro hcond calls env henv
    obtain ⟨htracked, hrec⟩ := hall calls env henv
    have hsite : ∀ s ∈ ((startCalls o calls).run env []).1.2, s.site = s.upAt := by
      intro s hs
      rcases hcond with hlocal | hone | hnone
      · exact (hrec s hs).up.siteOf_eq (.inl hlocal)
      · exact (hrec s hs).up.siteOf_eq (.inr hone)
      · have hmem := (hrec s hs).mem
        rw [hnone] at hmem
        cases hmem
    exact ⟨hsite, fun name s hs => hsite s (htracked name s hs)⟩

def registering (hosts : List RemoteHost) : DefaultHostManager where
  hosts := GoMap.ofList (hosts.map fun h => (h.name, h))
  name_eq k h hk := by
    obtain ⟨h', -, heq⟩ := mem_map.mp (GoMap.mem_of_lookup_ofList hk)
    cases heq
    rfl

def alpha : RemoteHost := { name := "alpha", address := "10.0.0.1", user := "ops" }

def beta : RemoteHost := { name := "beta", address := "10.0.0.2", user := "ops" }

def remoteWeb : DefaultOrchestrator where
  services := [plain "web" "/srv/web/compose.yml" []]
  remoteExec := true
  hostMgr := true

theorem recorded_where_started_alpha :
    (registering [alpha]).listHosts = [alpha] ∧
      ∀ calls env, Lists (registering [alpha]) env →
        ∀ s ∈ ((startCalls remoteWeb calls).run env []).1.2, s.site = s.upAt := by
  refine ⟨rfl, fun calls env henv => ?_⟩
  have hone : (registering [alpha]).listHosts.length ≤ 1 := by decide +kernel
  exact (((recorded_where_started_iff remoteWeb rfl _).2.mpr (.inr (.inl hone))) calls env henv).1

/-- **A service is tracked on the host that it was not started on**: the two listings of one start
do not agree. -/
theorem tracked_on_other_host :
    ∃ o m calls env name s, o.startedByName = ∅ ∧ Lists m env ∧
      ((startCalls o calls).run env []).1.1.startedByName.lookup name = some s ∧
      s.upAt = .onHost alpha "/home/ops/helixagent/web" "compose.yml" ∧
      s.site = .onHost beta "/home/ops/helixagent/web" "compose.yml" := by
  have hrun : (((startCalls remoteWeb [.startService "web"]).run
      (rotating (registering [alpha, beta]).listHosts) []).1.1.startedByName.lookup "web").map
      (fun s => (s.upAt, s.site)) =
        some (.onHost alpha "/home/ops/helixagent/web" "compose.yml",
          .onHost beta "/home/ops/helixagent/web" "compose.yml") := by
    rfl
  obtain ⟨s, hs, heq⟩ := map_eq_some_iff.mp hrun
  obtain ⟨hup, hsite⟩ := Prod.mk.inj heq
  exact ⟨remoteWeb, _, _, _, "web", s, rfl, lists_rotating _, hs, hup, hsite⟩

end Sequences

end Containers.Orchestrator
