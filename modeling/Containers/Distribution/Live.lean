import Containers.Distribution.Failover

/-!
# What is alive, read from the history

A container is alive at a place – a host and a name – from the `run` or `Start` that succeeded there
until a removal succeeds there (`live`). Both are events of the history, so that is a function of
it, and nothing a distributor keeps for itself has a part in it.

The history also holds what a distributor said about a place since the container there was last
started: the error lines of the log, and the errors `Undistribute` returned (`since`).

The second half says what the pieces of a deployment do to these two, place by place. Almost all
calls do nothing to them (`Inert`); tearing down and starting are confined to the place they are
about (`wp_teardownContainer`, `wp_deployContainer`).
-/

namespace Containers.Distribution

open Go Remote Scheduler Prog List

variable {err : Option String} {h text : String} {c : SeamCall}

/-! ### Events -/

/-- The event brings a container to life at `p`. -/
def makesLive (e : Event Outcome) (p : Place) : Bool :=
  match e with
  | ⟨.execute host (.run _ name _ _), .ok result⟩ =>
    result.exitCode = 0 && decide ((host.name, name) = p)
  | ⟨.localStart name, none⟩ => decide (("local", name) = p)
  | _ => false

/-- The event removes the container at `p`. -/
def removes (e : Event Outcome) (p : Place) : Bool :=
  match e with
  | ⟨.execute host (.remove _ name), .ok _⟩ => decide ((host.name, name) = p)
  | ⟨.localRemove name, none⟩ => decide (("local", name) = p)
  | _ => false

/-- The event is an error line about a deployment to `p`, or about a relocation from it. -/
def logsFailure (e : Event Outcome) (p : Place) : Bool :=
  match e with
  | ⟨.log (.deployFailed name hostName _), _⟩ => decide ((normHost hostName, name) = p)
  | ⟨.log (.reconcileTeardownFailed name hostName _), _⟩ => decide ((normHost hostName, name) = p)
  | _ => false

/-- The place of a container that could not be torn down. -/
def TeardownError.place (e : TeardownError) : Place := (normHost e.hostName, e.name)

/-- The event is an `Undistribute` that returns an error about the container at `p`. -/
def undistributeCovers (e : Event Outcome) (p : Place) : Bool :=
  match e with
  | ⟨.undistributeReturns errs, _⟩ => errs.any (·.place = p)
  | _ => false

/-! ### Histories -/

/-- **The container at `p` is alive**: it was started, and not removed since. -/
def live : History → Place → Bool
  | [], _ => false
  | e :: t, p => makesLive e p || (!removes e p && live t p)

/-- Since the container at `p` was last started, an event satisfied `f`. -/
def since (f : Event Outcome → Place → Bool) : History → Place → Bool
  | [], _ => false
  | e :: t, p => !makesLive e p && (f e p || since f t p)

/-- **The distributor has owned up to the container at `p`**: since it was last started,
`Undistribute` returned an error about it, or an error line about it was logged. -/
def Reported (t : History) (p : Place) : Prop :=
  since undistributeCovers t p = true ∨ since logsFailure t p = true

/-- A tracked list speaks of the container at `p` as running or migrating. -/
def Tracked (containers : List DistributedContainer) (p : Place) : Prop :=
  ∃ dc ∈ containers, stateNeedsTeardown dc.state = true ∧ dc.place = p

instance (containers : List DistributedContainer) (p : Place) :
    Decidable (Tracked containers p) :=
  inferInstanceAs (Decidable (∃ dc ∈ containers, stateNeedsTeardown dc.state = true ∧ dc.place = p))

/-- The collaborators a container at `p` is started through are there. -/
def Configured (opts : Options) (p : Place) : Prop :=
  if p.1 = "local" then opts.localRuntime = true
  else opts.executor = true ∧ opts.hostManager = true

/-! ### Places that are left alone -/

/-- **From `t` to `t'` nothing happened at `p`** but, perhaps, a report. -/
def Untouched (p : Place) (t t' : History) : Prop :=
  live t' p = live t p ∧ (Reported t p → Reported t' p)

namespace Untouched

variable {p : Place} {t t' t'' : History}

theorem refl (p : Place) (t : History) : Untouched p t t := ⟨rfl, id⟩

theorem trans (h : Untouched p t t') (h' : Untouched p t' t'') : Untouched p t t'' :=
  ⟨h'.1.trans h.1, fun hr => h'.2 (h.2 hr)⟩

end Untouched

variable {t t' : History} {p : Place} {e : Event Outcome}

theorem Reported.cons (hmakes : makesLive e p = false) (h : Reported t p) :
    Reported (e :: t) p := by
  rcases h with h | h
  · exact Or.inl (by simp [since, hmakes, h])
  · exact Or.inr (by simp [since, hmakes, h])

theorem Reported.of_log (hmakes : makesLive e p = false) (hlog : logsFailure e p = true) :
    Reported (e :: t) p :=
  Or.inr (by simp [since, hmakes, hlog])

theorem untouched_cons (hmakes : makesLive e p = false) (hremoves : removes e p = false) :
    Untouched p t (e :: t) :=
  ⟨by simp [live, hmakes, hremoves], Reported.cons hmakes⟩

theorem live_cons_removes (hmakes : makesLive e p = false) (hremoves : removes e p = true) :
    live (e :: t) p = false := by
  simp [live, hmakes, hremoves]

/-- **The calls that start and remove nothing.** -/
def Inert : SeamCall → Prop
  | .execute _ _ | .localStart _ | .localRemove _ => False
  | _ => True

theorem Inert.untouched (h : Inert c) (o : Outcome c) : Untouched p t (⟨c, o⟩ :: t) := by
  cases c with
  | execute | localStart | localRemove => exact absurd h id
  | _ => exact untouched_cons rfl rfl

theorem only_seam (h : Inert c) : (seam c).Only Inert := only_perform h

/-- **A program of inert calls leaves every place alone.** -/
theorem wp_of_inert {α : Type} {S : History → Event Outcome → Prop} {act : Act α}
    (h : act.Only Inert) (t : History) : act.wp S (fun _ t' => ∀ p, Untouched p t t') t :=
  h.wp (R := fun t t' => ∀ p, Untouched p t t') (fun t p => Untouched.refl p t)
    (fun _ _ _ o hc hR p => (hR p).trans (hc.untouched o)) t

/-! ### What is assumed of the outcomes -/

def NamesDistinct (e : Event Outcome) : Prop :=
  match e with
  | ⟨.scheduleBatch _, .ok plan⟩ => (plan.decisions.map (·.requirement.name)).Nodup
  | _ => True

/-- The executor, the local runtime and the host registry do what they are asked. -/
def Succeeds (e : Event Outcome) : Prop :=
  match e with
  | ⟨.execute _ (.run _ _ _ _), .ok result⟩ => result.exitCode = 0
  | ⟨.execute _ _, .error _⟩ => False
  | ⟨.localStart _, some _⟩ | ⟨.localStop _, some _⟩ | ⟨.localRemove _, some _⟩ => False
  | ⟨.getHost _, none⟩ => False
  | _ => True

/-- The assumption of the results below: where a result is about a `smooth` history, the seams
succeed. -/
def Assume (smooth : Prop) : History → Event Outcome → Prop := fun _ e => smooth → Succeeds e

/-! ### Tearing down -/

/-- What a teardown at `p` does: nothing anywhere else, and there it can only remove; it
does when it returns no error. -/
structure TornDown (smooth : Prop) (p : Place) (t t' : History) (err : Option String) : Prop where
  others : ∀ q ≠ p, Untouched q t t'
  reported : Reported t p → Reported t' p
  notStarted : live t' p = true → live t p = true
  gone : err = none → live t' p = false
  smooth_gone : smooth → live t' p = false

variable {smooth : Prop} {opts : Options} {dc : DistributedContainer}

theorem TornDown.of_untouched (h : ∀ q, Untouched q t t')
    (hgone : err = none ∨ smooth → live t p = false) : TornDown smooth p t t' err where
  others q _ := h q
  reported := (h p).2
  notStarted hl := (h p).1 ▸ hl
  gone herr := (h p).1.trans (hgone (Or.inl herr))
  smooth_gone hs := (h p).1.trans (hgone (Or.inr hs))

theorem TornDown.of_removes (h : ∀ q, Untouched q t t') (hmakes : ∀ q, makesLive e q = false)
    (hremoves : ∀ q, removes e q = decide (p = q)) :
    TornDown smooth p t (e :: t') err where
  others q hq := (h q).trans (untouched_cons (hmakes q) (by simp [hremoves, hq.symm]))
  reported hr := ((h p).2 hr).cons (hmakes p)
  notStarted hl := by simp [live_cons_removes (hmakes p) (by simp [hremoves])] at hl
  gone _ := live_cons_removes (hmakes p) (by simp [hremoves])
  smooth_gone _ := live_cons_removes (hmakes p) (by simp [hremoves])

theorem normHost_eq_local_iff : normHost h = "local" ↔ h = "" ∨ h = "local" := by
  rw [normHost]
  split_ifs with hempty <;> simp [hempty]

theorem normHost_eq_self (hne : normHost h ≠ "local") : normHost h = h := by
  rw [normHost, if_neg fun hempty => hne (normHost_eq_local_iff.mpr (Or.inl hempty))]

theorem configured_of_local (hlocal : normHost dc.hostName = "local") :
    Configured opts dc.place ↔ opts.localRuntime = true := by
  simp [Configured, DistributedContainer.place, hlocal]

theorem configured_of_remote (hremote : normHost dc.hostName ≠ "local") :
    Configured opts dc.place ↔ opts.executor = true ∧ opts.hostManager = true := by
  simp [Configured, DistributedContainer.place, hremote]

theorem live_eq_false_of_not_configured (hcfg : live t p = true → Configured opts p)
    (hno : ¬Configured opts p) : live t p = false := by
  rw [Bool.eq_false_iff]
  exact fun hl => hno (hcfg hl)

theorem place_of_found (hremote : normHost dc.hostName ≠ "local")
    (host : {h : RemoteHost // h.name = dc.hostName}) :
    dc.place = (host.1.name, dc.requirement.name) := by
  rw [DistributedContainer.place, normHost_eq_self hremote, host.2]

theorem joinErrors_eq_none {errs : List (Option String)} (h : joinErrors errs = none) :
    ∀ e ∈ errs, e = none := by
  rw [joinErrors] at h
  split at h
  · next hnil =>
    intro e he
    cases e with
    | none => rfl
    | some text =>
      have hmem : text ∈ errs.filterMap id := mem_filterMap.mpr ⟨some text, he, rfl⟩
      rw [hnil] at hmem
      exact absurd hmem not_mem_nil
  · exact absurd h (by simp)

/-- **A teardown is confined to the place it is about.** -/
theorem wp_teardownContainer (hcfg : live t dc.place = true → Configured opts dc.place) :
    (teardownContainer opts dc).wp (Assume smooth)
      (fun err t' => TornDown smooth dc.place t t' err) t := by
  rw [teardownContainer]
  split_ifs with hlocal hrt hexec hmgr
  · -- without a local runtime nothing was ever started here
    refine TornDown.of_untouched (fun q => Untouched.refl q t) fun _ =>
      live_eq_false_of_not_configured hcfg ?_
    rw [configured_of_local hlocal]
    simpa using hrt
  · refine wp_seam fun stopErr hstop => ?_
    refine wp_seam fun removeErr hremove => ?_
    have hinert : ∀ q, Untouched q t (⟨.localStop dc.requirement.name, stopErr⟩ :: t) :=
      fun q => Inert.untouched (c := .localStop dc.requirement.name) trivial stopErr
    cases removeErr with
    | none =>
      refine TornDown.of_removes hinert (fun q => rfl) fun q => ?_
      rw [DistributedContainer.place, hlocal]
      rfl
    | some text =>
      refine TornDown.of_untouched (fun q => (hinert q).trans (untouched_cons rfl rfl)) ?_
      rintro (hnone | hs)
      · -- no error is returned only if both the stop and the removal succeeded
        have hremoved := joinErrors_eq_none hnone _ (mem_cons_of_mem _ mem_cons_self)
        exact absurd hremoved (by simp)
      · exact absurd (hremove hs) id
  · -- without an executor or a registry an error is returned, and nothing was started either
    refine TornDown.of_untouched (fun q => Untouched.refl q t) fun _ =>
      live_eq_false_of_not_configured hcfg ?_
    rw [configured_of_remote hlocal]
    exact fun hc => by simp [hc.1] at hexec
  · refine TornDown.of_untouched (fun q => Untouched.refl q t) fun _ =>
      live_eq_false_of_not_configured hcfg ?_
    rw [configured_of_remote hlocal]
    exact fun hc => by simp [hc.2] at hmgr
  · refine wp_seam fun found hfound => ?_
    have hinert : ∀ q, Untouched q t (⟨.getHost dc.hostName, found⟩ :: t) :=
      fun q => Inert.untouched (c := .getHost dc.hostName) trivial found
    cases found with
    | none =>
      refine TornDown.of_untouched hinert ?_
      rintro (hnone | hs)
      · exact absurd hnone (by simp)
      · exact absurd (hfound hs) id
    | some host =>
      refine wp_seam fun result hresult => ?_
      cases result with
      | ok r =>
        refine TornDown.of_removes hinert (fun q => rfl) fun q => ?_
        rw [place_of_found hlocal host]
        rfl
      | error text =>
        refine TornDown.of_untouched (fun q => (hinert q).trans (untouched_cons rfl rfl)) ?_
        rintro (hnone | hs)
        · exact absurd hnone (by simp)
        · exact absurd (hresult hs) id

/-! ### Starting and wiring -/

/-- What a deployment to `p` does: nothing anywhere else, and there a container is alive
when it returns no error. When it returns one, a smooth history has none. -/
structure Deployment (smooth : Prop) (opts : Options) (p : Place) (t t' : History)
    (err : Option String) : Prop where
  others : ∀ q ≠ p, Untouched q t t'
  started : err = none → live t' p = true
  configured : live t' p = true → Configured opts p
  smooth_gone : smooth → err ≠ none → live t' p = false

theorem Deployment.of_untouched (h : ∀ q, Untouched q t t')
    (hcfg : live t p = true → Configured opts p) (hgone : smooth → live t p = false) :
    Deployment smooth opts p t t' (some text) where
  others q _ := h q
  started hnone := absurd hnone (by simp)
  configured hl := hcfg ((h p).1 ▸ hl)
  smooth_gone hs _ := (h p).1.trans (hgone hs)

theorem Deployment.of_makes (h : ∀ q ≠ p, Untouched q t t') (hcfg : Configured opts p)
    (hmakes : ∀ q, makesLive e q = decide (p = q)) (hremoves : ∀ q, removes e q = false) :
    Deployment smooth opts p t (e :: t') none where
  others q hq := (h q hq).trans (untouched_cons (by simp [hmakes, hq.symm]) (hremoves q))
  started _ := by simp [live, hmakes]
  configured _ := hcfg
  smooth_gone _ hne := absurd rfl hne

theorem wp_deployLocal (hlocal : normHost dc.hostName = "local")
    (hcfg : live t dc.place = true → Configured opts dc.place) :
    (deployLocal opts dc).wp (Assume smooth)
      (fun err t' => Deployment smooth opts dc.place t t' err) t := by
  have hconf : Configured opts dc.place ↔ _ := configured_of_local hlocal
  rw [deployLocal]
  split_ifs with hrt
  · refine Deployment.of_untouched (fun q => Untouched.refl q t) hcfg fun _ =>
      live_eq_false_of_not_configured hcfg ?_
    rw [hconf]
    simpa using hrt
  · intro err herr
    cases err with
    | none =>
      refine Deployment.of_makes (fun q _ => Untouched.refl q t) (hconf.mpr (by simpa using hrt))
        (fun q => ?_) fun q => rfl
      rw [DistributedContainer.place, hlocal]
      rfl
    | some text =>
      exact Deployment.of_untouched (fun q => untouched_cons rfl rfl) hcfg
        fun hs => absurd (herr hs) id

theorem wp_deployRemote (hremote : normHost dc.hostName ≠ "local")
    (hcfg : live t dc.place = true → Configured opts dc.place) :
    (deployRemote opts dc).wp (Assume smooth)
      (fun err t' => Deployment smooth opts dc.place t t' err) t := by
  have hconf : Configured opts dc.place ↔ _ := configured_of_remote hremote
  rw [deployRemote]
  split_ifs with hexec hmgr
  · refine Deployment.of_untouched (fun q => Untouched.refl q t) hcfg fun _ =>
      live_eq_false_of_not_configured hcfg ?_
    rw [hconf]
    exact fun hc => by simp [hc.1] at hexec
  · refine Deployment.of_untouched (fun q => Untouched.refl q t) hcfg fun _ =>
      live_eq_false_of_not_configured hcfg ?_
    rw [hconf]
    exact fun hc => by simp [hc.2] at hmgr
  · have hc : Configured opts dc.place :=
      hconf.mpr ⟨by simpa using hexec, by simpa using hmgr⟩
    refine wp_seam fun found hfound => ?_
    have hinert : ∀ q, Untouched q t (⟨.getHost dc.hostName, found⟩ :: t) :=
      fun q => Inert.untouched (c := .getHost dc.hostName) trivial found
    cases found with
    | none => exact Deployment.of_untouched hinert hcfg fun hs => absurd (hfound hs) id
    | some host =>
      have hplace := place_of_found hremote host
      refine wp_seam fun removed _ => ?_
      refine wp_seam fun result hresult => ?_
      -- the removal before the run is about the same place, whatever it comes to
      have hothers : ∀ q ≠ dc.place, Untouched q t
          (⟨.execute host (.remove (remoteRuntime host) dc.requirement.name), removed⟩ ::
            ⟨.getHost dc.hostName, some host⟩ :: t) := by
        intro q hq
        refine (hinert q).trans ?_
        cases removed with
        | ok r => exact untouched_cons rfl (decide_eq_false (hplace ▸ hq.symm))
        | error text => exact untouched_cons rfl rfl
      cases result with
      | error text =>
        exact ⟨fun q hq => (hothers q hq).trans (untouched_cons rfl rfl),
          fun hnone => absurd hnone (by simp), fun _ => hc, fun hs => absurd (hresult hs) id⟩
      | ok r =>
        dsimp only
        by_cases hexit : r.exitCode = 0
        · rw [if_neg (not_not.mpr hexit)]
          refine Deployment.of_makes hothers hc (fun q => ?_) fun q => rfl
          rw [hplace]
          simp [makesLive, hexit]
        · rw [if_pos hexit]
          exact ⟨fun q hq => (hothers q hq).trans (untouched_cons (by simp [makesLive, hexit]) rfl),
            fun hnone => absurd hnone (by simp), fun _ => hc,
            fun hs => absurd (hresult hs) hexit⟩

theorem wp_startContainer (hcfg : live t dc.place = true → Configured opts dc.place) :
    (startContainer opts dc).wp (Assume smooth)
      (fun err t' => Deployment smooth opts dc.place t t' err) t := by
  rw [startContainer]
  split_ifs with hlocal
  · exact wp_deployLocal (normHost_eq_local_iff.mpr hlocal) hcfg
  · exact wp_deployRemote (fun h => hlocal (normHost_eq_local_iff.mp h)) hcfg

/-! ### Wiring -/

theorem only_rollbackTunnels (localPorts : List String) : (rollbackTunnels localPorts).Only Inert :=
  only_foldlM (fun _ p => (only_seam (c := .closeTunnel p) trivial).bind
    fun _ => only_pure _) _ _

theorem only_rollbackVolumes (names : List String) : (rollbackVolumes names).Only Inert :=
  only_foldlM (fun _ n => (only_seam (c := .unmount n) trivial).bind
    fun _ => only_pure _) _ _

theorem only_wireTunnel (w : Wiring) (port : PortMapping) : (wireTunnel w port).Only Inert := by
  rw [wireTunnel]
  split_ifs
  · exact only_pure _
  · refine Only.bind (only_seam ?_) fun result => ?_
    · trivial
    · cases result with
      | error text => exact (only_rollbackTunnels _).bind fun _ => only_pure _
      | ok info => exact only_pure _

theorem only_wireVolume (w : Wiring) (m : Volume.VolumeMount) : (wireVolume w m).Only Inert := by
  rw [wireVolume]
  split
  · exact only_pure _
  · refine Only.bind (only_seam ?_) fun result => ?_
    · trivial
    · cases result with
      | none => exact only_pure _
      | some text =>
        exact (only_rollbackVolumes _).bind fun _ =>
          (only_rollbackTunnels _).bind fun _ => only_pure _

theorem only_wireTunnelsAndVolumes (dc : DistributedContainer) :
    (wireTunnelsAndVolumes opts dc).Only Inert := by
  rw [wireTunnelsAndVolumes]
  split_ifs
  · exact only_pure _
  · exact (only_foldlM only_wireTunnel _ _).bind fun _ =>
      (only_foldlM only_wireVolume _ _).bind fun _ => only_pure _

/-- The entry is about the same container on the same host. -/
def SameEntry (dc dc' : DistributedContainer) : Prop :=
  dc'.requirement = dc.requirement ∧ dc'.hostName = dc.hostName

theorem SameEntry.place_eq {dc' : DistributedContainer} (h : SameEntry dc dc') :
    dc'.place = dc.place := by
  rw [DistributedContainer.place, DistributedContainer.place, h.1, h.2]

variable {S : History → Event Outcome → Prop}

theorem wp_wireTunnel_sameEntry (w : Wiring) (port : PortMapping) (t : History) :
    (wireTunnel w port).wp S (fun w' _ => SameEntry w.dc w'.dc) t := by
  rw [wireTunnel]
  split
  · exact ⟨rfl, rfl⟩
  · refine wp_seam fun result _ => ?_
    cases result with
    | error text =>
      rw [wp_bind]
      exact wp_of_forall (fun _ _ => ⟨rfl, rfl⟩) _
    | ok info => exact ⟨rfl, rfl⟩

theorem wp_wireVolume_sameEntry (w : Wiring) (m : Volume.VolumeMount) (t : History) :
    (wireVolume w m).wp S (fun w' _ => SameEntry w.dc w'.dc) t := by
  rw [wireVolume]
  split
  · exact ⟨rfl, rfl⟩
  · refine wp_seam fun result _ => ?_
    cases result with
    | none => exact ⟨rfl, rfl⟩
    | some text =>
      rw [wp_bind]
      refine wp_of_forall (fun _ t' => ?_) _
      rw [wp_bind]
      exact wp_of_forall (fun _ _ => ⟨rfl, rfl⟩) _

/-- **Wiring fills in an entry and moves it nowhere.** -/
theorem wp_wireTunnelsAndVolumes_sameEntry (dc : DistributedContainer) (t : History) :
    (wireTunnelsAndVolumes opts dc).wp S (fun r _ => SameEntry dc r.1) t := by
  rw [wireTunnelsAndVolumes]
  split_ifs
  · exact ⟨rfl, rfl⟩
  · refine (wp_foldlM (fun _ w _ => SameEntry dc w.dc) ⟨rfl, rfl⟩
      fun _ port _ w t _ hw => ?_).bind fun w t' hw => ?_
    · exact (wp_wireTunnel_sameEntry w port t).mono
        fun w' _ h => ⟨h.1.trans hw.1, h.2.trans hw.2⟩
    · refine (wp_foldlM (fun _ (w : Wiring) _ => SameEntry dc w.dc) hw
        fun _ m _ w t _ hw => ?_).bind fun w t' hw => hw
      exact (wp_wireVolume_sameEntry w m t).mono
        fun w' _ h => ⟨h.1.trans hw.1, h.2.trans hw.2⟩

/-! ### Deploying -/

theorem Deployment.followed {t'' : History} (h : Deployment smooth opts p t t' err)
    (hinert : ∀ q, Untouched q t' t'') :
    Deployment smooth opts p t t'' err where
  others q hq := (h.others q hq).trans (hinert q)
  started hnone := (hinert p).1.trans (h.started hnone)
  configured hl := h.configured ((hinert p).1 ▸ hl)
  smooth_gone hs hne := (hinert p).1.trans (h.smooth_gone hs hne)

theorem Deployment.tornDown {t'' : History} {tdErr : Option String}
    (h : Deployment smooth opts p t t' err) (htorn : TornDown smooth p t' t'' tdErr) :
    Deployment smooth opts p t t'' (some text) where
  others q hq := (h.others q hq).trans (htorn.others q hq)
  started hnone := absurd hnone (by simp)
  configured hl := h.configured (htorn.notStarted hl)
  smooth_gone hs _ := htorn.smooth_gone hs

/-- **A deployment is confined to the place it is about**, the compensation for a failed
wiring included. -/
theorem wp_deployContainer (hcfg : live t dc.place = true → Configured opts dc.place) :
    (deployContainer opts dc).wp (Assume smooth)
      (fun r t' => SameEntry dc r.1 ∧ Deployment smooth opts dc.place t t' r.2) t := by
  refine (wp_startContainer hcfg).bind fun err t₁ hstart => ?_
  cases err with
  | some text => exact ⟨⟨rfl, rfl⟩, hstart⟩
  | none =>
    refine ((wp_of_inert (only_wireTunnelsAndVolumes dc) t₁).and
      (wp_wireTunnelsAndVolumes_sameEntry dc t₁)).bind ?_
    rintro ⟨dc', err⟩ t₂ ⟨hinert, hsame⟩
    -- wiring starts and removes nothing, so the deployment stands so far
    have hwired := hstart.followed hinert
    cases err with
    | none => exact ⟨hsame, hwired⟩
    | some text =>
      -- the container that was started is torn down again
      dsimp only
      refine (wp_teardownContainer (hsame.place_eq ▸ hwired.configured)).bind
        fun tdErr t₃ htorn => ?_
      rw [hsame.place_eq] at htorn
      have hfailed : Deployment smooth opts dc.place t t₃ (some text) := hwired.tornDown htorn
      cases tdErr with
      | none => exact ⟨hsame, hfailed⟩
      | some tdText =>
        exact fun _ _ => ⟨hsame, hfailed.followed fun q => untouched_cons rfl rfl⟩

end Containers.Distribution
