import Containers.Lifecycle.Boots

/-!
# A service that is reported running

`running` is written in two places. A leader writes it in its last section, which looks whether the
boot is still its own: state `starting`, and its own handle. A `Stop` whose `Down` has failed writes
it without looking.

The first write is right because of an invariant of the section (`UpInv`): while the state is
`starting`, no `Stop` is in flight, so no `Down` has come between the leader's `Up` and its last
section. The second is right only for a `Stop` that found the service running, and only as long as
it is alone. So the property is proved of the runs in which no `Start` and no other `Stop` of the
service sets out while a `Stop` of it is in flight, and a `Down` fails only for a `Stop` that found
it running (`isUp_of_running`); a `Stop` may set out during a boot. Without the condition it fails
(`running_not_up`).
-/

namespace Containers.Lifecycle

open Sections List ThreadSystem

variable {events done : List ComposeEvent} {op : ℕ} {idle : Bool} {M : DefaultManager} {n : String}
  {v v' : View} {f : Frame} {o : Option String} {state : ServiceState} {startOp : Option ℕ}
  {nextOp : ℕ} {A B : List Frame} {p p' : StartPoint}

/-! ### Being up -/

/-- The `Up` of this boot succeeded, and no `Down` has since. -/
def UpBy (op : ℕ) (events : List ComposeEvent) : Prop :=
  ∃ later earlier, events = later ++ .up op :: earlier ∧ .down ∉ later

/-- The `Up` of this boot succeeded, the service was found healthy then, and no `Down` has
succeeded since the `Up`. -/
def BootedBy (op : ℕ) (events : List ComposeEvent) : Prop :=
  ∃ later earlier, events = later ++ .up op :: earlier ∧ .down ∉ later ∧ .healthy op ∈ later

/-- **A service is up**: some boot of it came to a successful `Up` and health check, and no
`Down` has succeeded since that `Up`. -/
def IsUp (events : List ComposeEvent) : Prop := ∃ op, BootedBy op events

theorem UpBy.append (h : UpBy op events) (hdone : .down ∉ done) : UpBy op (done ++ events) := by
  obtain ⟨later, earlier, rfl, hlater⟩ := h
  refine ⟨done ++ later, earlier, by simp, ?_⟩
  rw [mem_append]
  exact not_or_intro hdone hlater

theorem BootedBy.append (h : BootedBy op events) (hdone : .down ∉ done) :
    BootedBy op (done ++ events) := by
  obtain ⟨later, earlier, rfl, hlater, hhealthy⟩ := h
  refine ⟨done ++ later, earlier, by simp, ?_, mem_append_right _ hhealthy⟩
  rw [mem_append]
  exact not_or_intro hdone hlater

theorem IsUp.append (h : IsUp events) (hdone : .down ∉ done) : IsUp (done ++ events) :=
  h.imp fun _ hop => hop.append hdone

theorem upBy_up : UpBy op (.up op :: events) :=
  ⟨[], events, rfl, not_mem_nil⟩

theorem UpBy.healthy (h : UpBy op events) : BootedBy op (.healthy op :: events) := by
  obtain ⟨later, earlier, rfl, hlater⟩ := h
  exact ⟨.healthy op :: later, earlier, rfl, by simpa using hlater, mem_cons_self⟩

/-! ### The condition on the steps -/

/-- **The condition**: no `Start` and no `Stop` of the service sets out while a `Stop` of it is
in flight, and a `Down` fails only for a `Stop` that found the service running. -/
def StopsAlone (n : String) (v : View) (f : Frame) (o : Option String) : Prop :=
  (Leads n v f ∨ Halts n v f → ∀ g ∈ v.flight, g.stops n = false) ∧
    ∀ found ∈ f.downing n, o.isSome → found = .running

instance : Decidable (StopsAlone n v f o) := inferInstanceAs (Decidable (_ ∧ _))

/-! ### The invariant -/

/-- The points of a `Stop` that found the service running and has not taken it down. -/
def StopPoint.spares : StopPoint → Prop
  | .enter | .write _ none => False
  | .quiet found _ | .down found | .downing found => found = .running
  | .write _ (some _) => True

/-- What the boot of a leading `Start` has achieved. -/
def StartPoint.Achieved (events : List ComposeEvent) : StartPoint → Prop
  | .check op => UpBy op events
  | .health op none | .commit op => BootedBy op events
  | _ => True

/-- **The invariant.** -/
structure UpInv (n : String) (v : View) : Prop where
  /-- Handles are used once. -/
  fresh : ∀ p, .start n p ∈ v.flight → p.op < v.nextOp
  /-- There is at most one `Stop` in flight. -/
  alone : v.flight.countP (·.stops n) ≤ 1
  /-- While there is one, the service is neither `starting` nor `running`. -/
  halted : ∀ g ∈ v.flight, g.stops n = true → v.state = .stopping ∨ v.state = .stopped
  /-- A `Stop` that has not taken a running service down leaves it up. -/
  spared : ∀ idle p, .stop n idle p ∈ v.flight → p.spares → IsUp v.events
  /-- The boot that owns the service has achieved what its leader believes. -/
  owner : ∀ p, .start n p ∈ v.flight → v.startOp = some p.op → v.state = .starting →
    p.Achieved v.events
  running : v.state = .running → IsUp v.events

theorem upInv_of_no_stop (hno : ∀ g ∈ v.flight, g.stops n = false)
    (hfresh : ∀ p, .start n p ∈ v.flight → p.op < v.nextOp)
    (howner : ∀ p, .start n p ∈ v.flight → v.startOp = some p.op → v.state = .starting →
      p.Achieved v.events) (hrunning : v.state = .running → IsUp v.events) : UpInv n v where
  fresh := hfresh
  alone := by
    rw [countP_eq_zero.mpr fun g hg => by simp [hno g hg]]
    exact Nat.zero_le 1
  halted g hg hstops := absurd hstops (by simp [hno g hg])
  spared idle p hp hspares := by
    have hne : p ≠ .enter := by
      rintro rfl
      exact hspares
    exact absurd ((stops_stop hne).symm.trans (hno _ hp)) (by simp)
  owner := howner
  running := hrunning

theorem upInv_initial : UpInv n ⟨.stopped, none, 0, [], []⟩ :=
  upInv_of_no_stop (by simp) (by simp) (by simp) (by simp)

theorem Advance.down_notMem (h : Advance M n o p p' done) : .down ∉ done := by
  cases h with
  | check => split_ifs <;> simp
  | call | back | refuse | ready | up | noUp | upFailed | noCheck | healthy | unhealthy => simp

theorem Advance.achieved (hup : M.Composes n) (hcheck : M.checker = true)
    (h : Advance M n o p p' done) (hp : p.Achieved events) : p'.Achieved (done ++ events) := by
  cases h with
  | up => exact upBy_up
  | noUp hno => exact absurd hup hno
  | check =>
    cases o with
    | none => exact UpBy.healthy hp
    | some err => trivial
  | noCheck hno => exact absurd hcheck (by simp [hno])
  | healthy => exact hp
  | call | back | refuse | ready | upFailed | unhealthy => trivial

theorem StartPoint.Achieved.append (h : p.Achieved events) (hdone : .down ∉ done) :
    p.Achieved (done ++ events) := by
  cases p with
  | check op => exact UpBy.append h hdone
  | health op err =>
    cases err with
    | none => exact BootedBy.append h hdone
    | some err => trivial
  | commit op => exact BootedBy.append h hdone
  | enter | wait | deps | awaitDep | up | fail | monitor | arm | finish => trivial

/-- **A boot goes on.** -/
theorem UpInv.advance (hup : M.Composes n) (hcheck : M.checker = true)
    (hv : UpInv n ⟨state, startOp, nextOp, events, A ++ Frame.start n p :: B⟩)
    (h : Advance M n o p p' done) :
    UpInv n ⟨state, startOp, nextOp, done ++ events, A ++ Frame.start n p' :: B⟩ := by
  constructor
  · intro q hq
    rcases mem_before.mp hq with hq | hq
    · cases hq
      rw [h.op_eq]
      exact hv.fresh p mem_subject
    · exact hv.fresh q (mem_of_mem_rest hq)
  · have halone := hv.alone
    rw [perm_middle.countP_eq] at halone ⊢
    exact halone
  · intro g hg hstops
    rcases mem_before.mp hg with rfl | hg
    · cases hstops
    · exact hv.halted g (mem_of_mem_rest hg) hstops
  · intro idle q hq hspares
    have hq := (mem_before.mp hq).resolve_left (by simp)
    exact (hv.spared idle q (mem_of_mem_rest hq) hspares).append h.down_notMem
  · intro q hq hop hstate
    rcases mem_before.mp hq with hq | hq
    · cases hq
      rw [h.op_eq] at hop
      exact h.achieved hup hcheck (hv.owner p mem_subject hop hstate)
    · exact (hv.owner q (mem_of_mem_rest hq) hop hstate).append h.down_notMem
  · intro hstate
    exact (hv.running hstate).append h.down_notMem

/-- **A boot ends**, and leaves a state that a `Stop` in flight allows and that is `running`
only if the service is up. -/
theorem UpInv.remove {old : ServiceState}
    (hv : UpInv n ⟨old, startOp, nextOp, events, A ++ Frame.start n p :: B⟩)
    (hne : state ≠ .starting ∨ state = old)
    (hhalted : old = .stopping ∨ old = .stopped → state = .stopping ∨ state = .stopped)
    (hrunning : state = .running → IsUp events) :
    UpInv n ⟨state, startOp, nextOp, events, A ++ B⟩ := by
  constructor
  · exact fun q hq => hv.fresh q (mem_of_mem_rest hq)
  · have halone := hv.alone
    rw [perm_middle.countP_eq] at halone
    exact halone
  · exact fun g hg hstops => hhalted (hv.halted g (mem_of_mem_rest hg) hstops)
  · exact fun idle q hq => hv.spared idle q (mem_of_mem_rest hq)
  · intro q hq hop hstate
    rcases hne with hne | rfl
    · exact absurd hstate hne
    · exact hv.owner q (mem_of_mem_rest hq) hop hstate
  · exact hrunning

/-- **A `Start` takes the lead**, with no `Stop` in flight. -/
theorem UpInv.lead {deps : List String} (hv : UpInv n ⟨state, startOp, nextOp, events, A ++ B⟩)
    (hnone : ∀ g ∈ A ++ B, g.stops n = false) :
    UpInv n ⟨.starting, some nextOp, nextOp + 1, events,
      A ++ Frame.start n (.deps nextOp deps) :: B⟩ := by
  refine upInv_of_no_stop (forall_mem_before rfl hnone) (fun q hq => ?_)
    (fun q hq hop _ => ?_) (fun hstate => by cases hstate)
  · rcases mem_before.mp hq with hq | hq
    · cases hq
      exact Nat.lt_succ_self nextOp
    · exact (hv.fresh q hq).trans (Nat.lt_succ_self nextOp)
  · rcases mem_before.mp hq with hq | hq
    · cases hq
      trivial
    · -- the handle is new, so no other boot has it
      have hlt := hv.fresh q hq
      cases hop
      exact absurd hlt (lt_irrefl _)

/-- **A `Stop` sets out**, with no other in flight. -/
theorem UpInv.stop {timer : Option ℕ} (hv : UpInv n ⟨state, startOp, nextOp, events, A ++ B⟩)
    (hnone : ∀ g ∈ A ++ B, g.stops n = false) :
    UpInv n ⟨.stopping, startOp, nextOp, events,
      A ++ Frame.stop n idle (.quiet state timer) :: B⟩ := by
  constructor
  · exact fun q hq => hv.fresh q ((mem_before.mp hq).resolve_left (by simp))
  · rw [perm_middle.countP_eq, countP_cons,
      countP_eq_zero.mpr fun g hg => by simp [hnone g hg]]
    split_ifs <;> omega
  · exact fun _ _ _ => .inl rfl
  · intro idle' q hq hspares
    rcases mem_before.mp hq with hq | hq
    · cases hq
      exact hv.running hspares
    · exact hv.spared idle' q hq hspares
  · intro _ _ _ hstate
    cases hstate
  · intro hstate
    cases hstate

/-- **A `Stop` goes on**: its `Down` fails only if it found the service running. -/
theorem UpInv.proceed {p p' : StopPoint} (hup : M.Composes n)
    (hv : UpInv n ⟨state, startOp, nextOp, events, A ++ Frame.stop n idle p :: B⟩)
    (hfound : ∀ found, p = .downing found → o.isSome → found = .running)
    (h : Proceed M n o p p' done) :
    UpInv n ⟨state, startOp, nextOp, done ++ events, A ++ Frame.stop n idle p' :: B⟩ := by
  have hne : p ≠ .enter ∧ p' ≠ .enter := by cases h <;> simp
  have hstops : (Frame.stop n idle p).stops n = true := stops_stop hne.1
  have hothers := others_of_alone hv.alone hstops
  have hhalted := hv.halted _ mem_subject hstops
  constructor
  · exact fun q hq => hv.fresh q (mem_of_mem_rest ((mem_before.mp hq).resolve_left (by simp)))
  · rw [perm_middle.countP_eq, countP_cons,
      countP_eq_zero.mpr fun g hg => by simp [hothers g hg]]
    split_ifs <;> omega
  · exact fun _ _ _ => hhalted
  · intro idle' q hq hspares
    rcases mem_before.mp hq with hq | hq
    · cases hq
      have hup' := hv.spared idle p mem_subject
      cases h with
      | quiet | down => exact hup' hspares
      | noDown hno => exact absurd hup hno
      | downing =>
        cases o with
        | none => exact absurd hspares id
        | some err => exact hup' (hfound _ rfl rfl)
    · -- there is no other `Stop`
      have hne' : q ≠ .enter := by
        rintro rfl
        exact hspares
      exact absurd ((stops_stop hne').symm.trans (hothers _ hq)) (by simp)
  · intro _ _ _ hstate
    rcases hhalted with hs | hs <;> cases hs.symm.trans hstate
  · intro hstate
    rcases hhalted with hs | hs <;> cases hs.symm.trans hstate

/-- **A `Stop` ends.** -/
theorem UpInv.write {found : ServiceState} {err : Option String}
    (hv : UpInv n
    ⟨state, startOp, nextOp, events, A ++ Frame.stop n idle (.write found err) :: B⟩) :
    UpInv n ⟨err.elim .stopped fun _ => .running, startOp, nextOp, events, A ++ B⟩ := by
  have hothers := others_of_alone hv.alone (stops_stop (by simp))
  refine upInv_of_no_stop hothers (fun q hq => hv.fresh q (mem_of_mem_rest hq)) ?_ ?_
  · intro _ _ _ hs
    cases err <;> cases hs
  · intro hs
    cases err with
    | none => cases hs
    | some err => exact hv.spared idle _ mem_subject trivial

/-- **The invariant is kept** by every move that meets the condition. -/
theorem UpInv.move (hup : M.Composes n) (hcheck : M.checker = true) (hv : UpInv n v)
    (hD : StopsAlone n v f o) (h : Move M n v f o v') : UpInv n v' := by
  obtain ⟨state, startOp, nextOp, events, flight⟩ := v
  cases h with
  | quiet => exact hv
  | fresh => exact { hv with fresh := fun p hp => (hv.fresh p hp).trans (Nat.lt_succ_self _) }
  | lead hf hstate hflight =>
    subst hflight
    exact hv.lead (hD.1 (.inl ⟨hf, hstate⟩))
  | advance _ hflight h =>
    subst hflight
    exact hv.advance hup hcheck h
  | fail _ hflight =>
    subst hflight
    exact hv.remove (.inl (by simp)) (fun _ => .inr rfl) (by simp)
  | @commit A B op hflight =>
    subst hflight
    by_cases hop : startOp = some op
    · rw [if_pos hop]
      by_cases hstate : state = .starting
      · rw [if_pos hstate]
        refine hv.remove (.inl (by simp)) (fun hs => ?_) fun _ => ⟨op, ?_⟩
        · rcases hs with hs | hs <;> cases hs.symm.trans hstate
        · exact hv.owner _ mem_subject hop hstate
      · rw [if_neg hstate]
        exact hv.remove (.inl (by simp)) (fun _ => .inr rfl) (by simp)
    · rw [if_neg hop]
      exact hv.remove (.inr rfl) id hv.running
  | @stop A B idle timer hf hstate hflight =>
    subst hflight
    refine hv.stop (hD.1 (.inr ⟨?_, hstate⟩))
    cases idle
    · exact .inl hf
    · exact .inr hf
  | proceed hf hflight h =>
    subst hflight
    refine hv.proceed hup ?_ h
    rintro found rfl ho
    exact hD.2 found (by simp [hf, Frame.downing]) ho
  | write _ hflight =>
    subst hflight
    exact hv.write

/-- **A service that is reported running is up**, in every run in which no `Start` and no other
`Stop` of it sets out while a `Stop` of it is in flight, and its `Down` fails only for a `Stop`
that found it running. -/
theorem isUp_of_running (M : DefaultManager) (n : String) (hup : M.Composes n)
    (hcheck : M.checker = true) (s : State) (h : Reached M (Seen n (StopsAlone n)) s)
    (hrunning : (s.memory.entry n).state = .running) : IsUp (s.memory.events n) :=
  (h.view_induction upInv_initial fun _ _ _ _ hv => hv.move hup hcheck).running hrunning

/-- `db` is started, and a `Stop` of it fails. -/
theorem isUp_of_running_db :
    ∃ s, Reached (oneService db) (Seen "db" (StopsAlone "db")) s ∧
      (s.memory.entry "db").state = .running ∧ IsUp (s.memory.events "db") := by
  obtain ⟨s, hs, hrunning⟩ : ∃ s, Reached (oneService db) (Seen "db" (StopsAlone "db")) s ∧
      (s.memory.entry "db").state = .running :=
    Reach.exists_of_runMeeting
      (.call (.start "db") :: steps 0 9 ++ .call (.stop "db") :: steps 1 3 ++
        [.step 1 (some "daemon busy"), .step 1 none]) (by decide +kernel)
  exact ⟨s, hs, hrunning,
    isUp_of_running (oneService db) "db" (by decide) rfl s hs hrunning⟩

theorem not_isUp_nil : ¬IsUp [] := by
  rintro ⟨op, later, earlier, h, -⟩
  exact absurd h (by simp)

theorem not_isUp_down : ¬IsUp (.down :: events) := by
  rintro ⟨op, later, earlier, h, hdown, -⟩
  cases later with
  | nil => cases h
  | cons e later =>
    cases h
    exact hdown mem_cons_self

/-- **A service can be reported running and not be up.** A `Stop` comes while the service is
booted, before anything was started, and its `Down` fails. Or a running service is started
again while compose is taking it down; the `Start` succeeds, and then the `Down` does. -/
theorem running_not_up :
    (∃ s, Reached (oneService db) Anyhow s ∧ (s.memory.entry "db").state = .running ∧
      ¬IsUp (s.memory.events "db")) ∧
    ∃ s, Reached (oneService db) Anyhow s ∧ (s.memory.entry "db").state = .running ∧
      s.memory.events "db" = [.down, .healthy 1, .up 1, .healthy 0, .up 0] ∧
      ¬IsUp (s.memory.events "db") := by
  constructor
  · obtain ⟨s, hs, hrunning, hevents⟩ : ∃ s, Reached (oneService db) Anyhow s ∧
        (s.memory.entry "db").state = .running ∧ s.memory.events "db" = [] :=
      Reach.exists_of_runMeeting
        (.call (.start "db") :: steps 0 1 ++ .call (.stop "db") :: steps 1 3 ++
          [.step 1 (some "daemon busy"), .step 1 none]) (by decide +kernel)
    exact ⟨s, hs, hrunning, hevents ▸ not_isUp_nil⟩
  · obtain ⟨s, hs, hrunning, hevents⟩ : ∃ s, Reached (oneService db) Anyhow s ∧
        (s.memory.entry "db").state = .running ∧
        s.memory.events "db" = [.down, .healthy 1, .up 1, .healthy 0, .up 0] :=
      Reach.exists_of_runMeeting
        (.call (.start "db") :: steps 0 9 ++ .call (.stop "db") :: steps 1 3 ++
          .call (.start "db") :: steps 2 6 ++ steps 1 1) (by decide +kernel)
    exact ⟨s, hs, hrunning, hevents, hevents ▸ not_isUp_down⟩

end Containers.Lifecycle
