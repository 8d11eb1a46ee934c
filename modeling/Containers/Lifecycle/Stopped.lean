import Containers.Lifecycle.Boots

/-!
# A service that is reported stopped

`stopped` is written by a leader that fails, by a leader that finds that its boot is no longer its
own, and by a `Stop` whose `Down` has succeeded. None of them looks at what the others have done. A
boot that fails its health check leaves what its `Up` started; one whose `Up` comes after the `Down`
of a `Stop` leaves it too; and in either case `Stop` returns at once from then on, since the service
is `stopped` already (`stopped_not_takenDown`).

So the property is proved of the runs in which the health check after a successful `Up` comes out
well, a `Start` takes the lead only while no boot and no `Stop` of the service is in flight, and a
`Down` returns only while no boot of it is (`takenDown_of_stopped`). A `Stop` may set out at any
time.
-/

namespace Containers.Lifecycle

open Sections List ThreadSystem

variable {M : DefaultManager} {n : String} {v v' : View} {f : Frame} {o : Option String}
  {idle : Bool} {state : ServiceState} {startOp : Option ℕ} {nextOp : ℕ}
  {events done : List ComposeEvent} {A B : List Frame} {p : StartPoint}

/-! ### Being down -/

/-- **A service is taken down**: every `Up` that succeeded has been followed by a `Down` that
did. -/
def TakenDown (events : List ComposeEvent) : Prop :=
  ∀ later op earlier, events = later ++ .up op :: earlier → .down ∈ later

theorem takenDown_nil : TakenDown [] := by
  intro later op earlier h
  exact absurd h (by simp)

theorem takenDown_down : TakenDown (.down :: events) := by
  intro later op earlier h
  cases later with
  | nil => cases h
  | cons e later =>
    cases h
    exact mem_cons_self

/-! ### The condition on the steps -/

def Frame.checking (n : String) : Frame → Option ℕ
  | .start n' (.check op) => if n' = n then some op else none
  | _ => none

/-- **The condition**: the health check after a successful `Up` comes out well, a `Start` takes
the lead only while no boot and no `Stop` of the service is in flight, and a `Down` returns
only while no boot of it is. -/
def TakesTurns (n : String) (v : View) (f : Frame) (o : Option String) : Prop :=
  (∀ op ∈ f.checking n, .up op ∈ v.events → o = none) ∧ (Leads n v f → v.flight = []) ∧
    ((f.downing n).isSome → ∀ g ∈ v.flight, g.boots n = false)

instance : Decidable (TakesTurns n v f o) := inferInstanceAs (Decidable (_ ∧ _ ∧ _))

/-! ### The invariant -/

/-- A frame of a `Start` of the service. -/
def Frame.starts (n : String) : Frame → Bool
  | .start n' _ => n' = n
  | _ => false

/-- What is known of a boot on its way: nothing is up before its `Up`, and its `Up` has
succeeded after it. -/
def StartPoint.Known (events : List ComposeEvent) : StartPoint → Prop
  | .deps _ _ | .awaitDep _ _ _ | .up _ | .fail _ _ => TakenDown events
  | .check op => .up op ∈ events
  | .health _ (some _) => False
  | _ => True

/-- The points of a boot whose `Up` has succeeded. -/
def StartPoint.upped : StartPoint → Prop
  | .check _ | .health _ none | .commit _ => True
  | _ => False

/-- The points of a `Stop` whose `Down` has not returned. -/
def StopPoint.pending : StopPoint → Prop
  | .quiet _ _ | .down _ | .downing _ => True
  | .enter | .write _ _ => False

/-- The points of a `Stop` whose `Down` has not succeeded. -/
def StopPoint.undone : StopPoint → Prop
  | .quiet _ _ | .down _ | .downing _ | .write _ (some _) => True
  | .enter | .write _ none => False

/-- **The invariant.** -/
structure DownInv (n : String) (v : View) : Prop where
  /-- There is at most one boot in flight. -/
  alone : v.flight.countP (·.starts n) ≤ 1
  boots : ∀ p, .start n p ∈ v.flight → p.boots = true
  owner : ∀ p, .start n p ∈ v.flight → v.startOp = some p.op
  /-- A boot that has lost the service has lost it to a `Stop` whose `Down` is to come. -/
  lost : ∀ p, .start n p ∈ v.flight →
    v.state = .starting ∨ ∃ idle q, .stop n idle q ∈ v.flight ∧ q.pending
  unwritten :
    ∀ p, .start n p ∈ v.flight → ∀ idle found err, .stop n idle (.write found err) ∉ v.flight
  known : ∀ p, .start n p ∈ v.flight → p.Known v.events
  written : ∀ idle found, .stop n idle (.write found none) ∈ v.flight → TakenDown v.events
  stopping : v.state = .stopping → ∃ idle q, .stop n idle q ∈ v.flight
  /-- What is up is running, or about to be, or about to be taken down. -/
  left : TakenDown v.events ∨ v.state = .running ∨
    (∃ idle q, .stop n idle q ∈ v.flight ∧ q.undone) ∨ ∃ p, .start n p ∈ v.flight ∧ p.upped

theorem downInv_of_no_start (hno : ∀ p, .start n p ∉ v.flight)
    (hwritten : ∀ idle found, .stop n idle (.write found none) ∈ v.flight → TakenDown v.events)
    (hstopping : v.state = .stopping → ∃ idle q, .stop n idle q ∈ v.flight)
    (hleft : TakenDown v.events ∨ v.state = .running ∨
      ∃ idle q, .stop n idle q ∈ v.flight ∧ q.undone) : DownInv n v where
  alone := by
    have hnone : v.flight.countP (·.starts n) = 0 := countP_eq_zero.mpr fun g hg hstarts => by
      cases g with
      | start n' p =>
        cases of_decide_eq_true hstarts
        exact hno p hg
      | _ => cases hstarts
    rw [hnone]
    exact Nat.zero_le 1
  boots p hp := absurd hp (hno p)
  owner p hp := absurd hp (hno p)
  lost p hp := absurd hp (hno p)
  unwritten p hp := absurd hp (hno p)
  known p hp := absurd hp (hno p)
  written := hwritten
  stopping := hstopping
  left := hleft.imp_right (Or.imp_right .inl)

theorem downInv_initial : DownInv n ⟨.stopped, none, 0, [], []⟩ :=
  downInv_of_no_start (by simp) (by simp) (by simp) (.inl takenDown_nil)

theorem DownInv.no_other
    (hv : DownInv n ⟨state, startOp, nextOp, events, A ++ Frame.start n p :: B⟩) (q : StartPoint) :
    .start n q ∉ A ++ B := by
  intro hq
  have h := others_of_alone hv.alone (by simp [Frame.starts]) _ hq
  simp [Frame.starts] at h

theorem StopPoint.pending.undone {q : StopPoint} (h : q.pending) : q.undone := by
  cases q with
  | quiet | down | downing => trivial
  | enter | write => exact absurd h id

/-- **A `Start` takes the lead**, with nothing in flight. -/
theorem DownInv.lead (hv : DownInv n ⟨state, startOp, nextOp, events, []⟩)
    (hstate : state = .stopped ∨ state = .stopping) {deps : List String} :
    DownInv n ⟨.starting, some nextOp, nextOp + 1, events, [.start n (.deps nextOp deps)]⟩ := by
  have hdown : TakenDown events := by
    rcases hv.left with h | h | ⟨idle, q, hq, -⟩ | ⟨p, hp, -⟩
    · exact h
    · rcases hstate with hs | hs <;> cases hs.symm.trans h
    · cases hq
    · cases hp
  constructor
  · simp [Frame.starts]
  · intro p hp
    cases mem_singleton.mp hp
    rfl
  · intro p hp
    cases mem_singleton.mp hp
    rfl
  · exact fun _ _ => .inl rfl
  · intro _ _ idle found err h
    cases mem_singleton.mp h
  · intro p hp
    cases mem_singleton.mp hp
    exact hdown
  · intro idle found h
    cases mem_singleton.mp h
  · intro h
    cases h
  · exact .inl hdown

/-- **A boot goes on.** -/
theorem DownInv.advance {p' : StartPoint} (hup : M.Composes n)
    (hv : DownInv n ⟨state, startOp, nextOp, events, A ++ Frame.start n p :: B⟩)
    (hcheck : ∀ op, p = .check op → .up op ∈ events → o = none) (h : Advance M n o p p' done) :
    DownInv n ⟨state, startOp, nextOp, done ++ events, A ++ Frame.start n p' :: B⟩ := by
  have hstop : ∀ idle q, .stop n idle q ∈ A ++ Frame.start n p :: B ↔
      .stop n idle q ∈ A ++ Frame.start n p' :: B := by
    simp
  have honly : ∀ {q}, .start n q ∈ A ++ Frame.start n p' :: B → q = p' := by
    intro q hq
    rcases mem_before.mp hq with hq | hq
    · cases hq
      rfl
    · exact absurd hq (hv.no_other q)
  have hknown := hv.known p mem_subject
  have hnext : p'.Known (done ++ events) ∧ (TakenDown (done ++ events) ∨ p'.upped) := by
    cases h with
    | call | back | refuse | ready | upFailed => exact ⟨hknown, .inl hknown⟩
    | up => exact ⟨mem_cons_self, .inr trivial⟩
    | noUp hno => exact absurd hup hno
    | check =>
      cases hcheck _ rfl hknown
      exact ⟨trivial, .inr trivial⟩
    | noCheck | healthy => exact ⟨trivial, .inr trivial⟩
    | unhealthy => exact absurd hknown id
  constructor
  · have halone := hv.alone
    rw [perm_middle.countP_eq] at halone ⊢
    exact halone
  · intro q hq
    cases honly hq
    cases h <;> rfl
  · intro q hq
    cases honly hq
    rw [h.op_eq]
    exact hv.owner p mem_subject
  · intro _ _
    refine (hv.lost p mem_subject).imp_right ?_
    rintro ⟨idle, q, hq, hpending⟩
    exact ⟨idle, q, (hstop idle q).mp hq, hpending⟩
  · exact fun _ _ idle found err hw =>
      hv.unwritten p mem_subject idle found err ((hstop _ _).mpr hw)
  · intro q hq
    cases honly hq
    exact hnext.1
  · exact fun idle found hw =>
      absurd ((hstop _ _).mpr hw) (hv.unwritten p mem_subject idle found none)
  · intro hstate
    obtain ⟨idle, q, hq⟩ := hv.stopping hstate
    exact ⟨idle, q, (hstop idle q).mp hq⟩
  · exact hnext.2.imp_right fun hupped => .inr (.inr ⟨p', mem_subject, hupped⟩)

/-- **A boot ends**, and leaves nothing up but what is running or about to be taken down. -/
theorem DownInv.remove {old : ServiceState}
    (hv : DownInv n ⟨old, startOp, nextOp, events, A ++ Frame.start n p :: B⟩)
    (hne : state ≠ .stopping)
    (hleft : TakenDown events ∨ state = .running ∨ ∃ idle q, .stop n idle q ∈ A ++ B ∧ q.undone) :
    DownInv n ⟨state, startOp, nextOp, events, A ++ B⟩ :=
  downInv_of_no_start hv.no_other (fun idle found hw => hv.written idle found (mem_of_mem_rest hw))
    (fun hstate => absurd hstate hne) hleft

/-- **A `Stop` sets out.** -/
theorem DownInv.stop {timer : Option ℕ} (hv : DownInv n ⟨state, startOp, nextOp, events, A ++ B⟩) :
    DownInv n ⟨.stopping, startOp, nextOp, events,
      A ++ Frame.stop n idle (.quiet state timer) :: B⟩ := by
  have hstart : ∀ {q}, .start n q ∈ A ++ Frame.stop n idle (.quiet state timer) :: B →
      .start n q ∈ A ++ B :=
    fun hq => (mem_before.mp hq).resolve_left (by simp)
  constructor
  · have halone := hv.alone
    rw [perm_middle.countP_eq]
    exact halone
  · exact fun q hq => hv.boots q (hstart hq)
  · exact fun q hq => hv.owner q (hstart hq)
  · exact fun _ _ => .inr ⟨idle, _, mem_subject, trivial⟩
  · exact fun q hq idle' found err hw =>
      hv.unwritten q (hstart hq) idle' found err ((mem_before.mp hw).resolve_left (by simp))
  · exact fun q hq => hv.known q (hstart hq)
  · exact fun idle' found hw => hv.written idle' found ((mem_before.mp hw).resolve_left (by simp))
  · exact fun _ => ⟨idle, _, mem_subject⟩
  · exact .inr (.inr (.inl ⟨idle, _, mem_subject, trivial⟩))

/-- **A `Stop` goes on**: its `Down` returns only while no boot is in flight. -/
theorem DownInv.proceed {p p' : StopPoint} (hup : M.Composes n)
    (hv : DownInv n ⟨state, startOp, nextOp, events, A ++ Frame.stop n idle p :: B⟩)
    (hnone : ∀ found, p = .downing found → ∀ g ∈ A ++ Frame.stop n idle p :: B, g.boots n = false)
    (h : Proceed M n o p p' done) :
    DownInv n ⟨state, startOp, nextOp, done ++ events, A ++ Frame.stop n idle p' :: B⟩ := by
  have hstart : ∀ {q}, .start n q ∈ A ++ Frame.stop n idle p' :: B →
      .start n q ∈ A ++ Frame.stop n idle p :: B :=
    fun hq => mem_of_mem_rest ((mem_before.mp hq).resolve_left (by simp))
  -- while a boot is in flight, the `Down` of this `Stop` is to come
  have hpending : ∀ q, .start n q ∈ A ++ Frame.stop n idle p' :: B → p'.pending ∧ done = [] := by
    intro q hq
    cases h with
    | quiet | down => exact ⟨trivial, rfl⟩
    | noDown hno => exact absurd hup hno
    | downing =>
      have hboots := hnone _ rfl _ (hstart hq)
      rw [Frame.boots, hv.boots q (hstart hq)] at hboots
      simp at hboots
  have hdone : done = [] ∧ p'.undone ∨ TakenDown (done ++ events) := by
    cases h with
    | quiet | down => exact .inl ⟨rfl, trivial⟩
    | noDown hno => exact absurd hup hno
    | downing =>
      cases o with
      | none => exact .inr takenDown_down
      | some err => exact .inl ⟨rfl, trivial⟩
  constructor
  · have halone := hv.alone
    rw [perm_middle.countP_eq] at halone ⊢
    exact halone
  · exact fun q hq => hv.boots q (hstart hq)
  · exact fun q hq => hv.owner q (hstart hq)
  · exact fun q hq => .inr ⟨idle, p', mem_subject, (hpending q hq).1⟩
  · intro q hq idle' found err hw
    rcases mem_before.mp hw with hw | hw
    · cases hw
      exact (hpending q hq).1
    · exact hv.unwritten q (hstart hq) idle' found err (mem_of_mem_rest hw)
  · intro q hq
    rw [(hpending q hq).2]
    exact hv.known q (hstart hq)
  · intro idle' found hw
    rcases hdone with ⟨rfl, hundone⟩ | hdown
    · rcases mem_before.mp hw with hw | hw
      · cases hw
        exact absurd hundone id
      · exact hv.written idle' found (mem_of_mem_rest hw)
    · exact hdown
  · exact fun _ => ⟨idle, p', mem_subject⟩
  · rcases hdone with ⟨-, hundone⟩ | hdown
    · exact .inr (.inr (.inl ⟨idle, p', mem_subject, hundone⟩))
    · exact .inl hdown

/-- **A `Stop` ends.** -/
theorem DownInv.write {found : ServiceState} {err : Option String}
    (hv : DownInv n ⟨state, startOp, nextOp, events,
      A ++ Frame.stop n idle (.write found err) :: B⟩) :
    DownInv n ⟨err.elim .stopped fun _ => .running, startOp, nextOp, events, A ++ B⟩ := by
  -- a `Stop` that is about to write has no boot beside it
  have hno : ∀ q, .start n q ∉ A ++ B := fun q hq =>
    hv.unwritten q (mem_of_mem_rest hq) idle found err mem_subject
  refine downInv_of_no_start hno (fun _ _ hw => hv.written _ _ (mem_of_mem_rest hw)) ?_ ?_
  · intro hs
    cases err <;> cases hs
  · cases err with
    | none => exact .inl (hv.written idle found mem_subject)
    | some err => exact .inr (.inl rfl)

/-- **The invariant is kept** by every move that meets the condition. -/
theorem DownInv.move (hup : M.Composes n) (hv : DownInv n v) (hD : TakesTurns n v f o)
    (h : Move M n v f o v') : DownInv n v' := by
  obtain ⟨state, startOp, nextOp, events, flight⟩ := v
  cases h with
  | quiet => exact hv
  | fresh => exact { hv with }
  | lead hf hstate hflight =>
    obtain rfl := hD.2.1 ⟨hf, hstate⟩
    obtain ⟨rfl, rfl⟩ := append_eq_nil_iff.mp hflight.symm
    exact hv.lead hstate
  | advance hf hflight h =>
    subst hflight
    refine hv.advance hup ?_ h
    rintro op rfl
    exact hD.1 op (by simp [hf (by simp), Frame.checking])
  | fail _ hflight =>
    subst hflight
    exact hv.remove (by simp) (.inl (hv.known _ mem_subject))
  | @commit A B op hflight =>
    subst hflight
    have hop : startOp = some op := hv.owner _ mem_subject
    rw [if_pos hop]
    by_cases hstate : state = .starting
    · rw [if_pos hstate]
      exact hv.remove (by simp) (.inr (.inl rfl))
    · rw [if_neg hstate]
      obtain ⟨idle, q, hq, hpending⟩ := (hv.lost _ mem_subject).resolve_left hstate
      exact hv.remove (by simp)
        (.inr (.inr ⟨idle, q, (mem_before.mp hq).resolve_left (by simp), hpending.undone⟩))
  | stop _ _ hflight =>
    subst hflight
    exact hv.stop
  | proceed hf hflight h =>
    subst hflight
    refine hv.proceed hup ?_ h
    rintro found rfl
    exact hD.2.2 (by simp [hf, Frame.downing])
  | write _ hflight =>
    subst hflight
    exact hv.write

/-! ### The result -/

theorem takenDown_of_not_composes (hup : ¬M.Composes n) {s : State} {C : Condition}
    (h : Reached M C s) : TakenDown (s.memory.events n) := by
  have hevents : ∀ op, .up op ∉ s.memory.events n := by
    have h' : Reached M (Seen n fun _ _ _ => True) s := h.mono fun s a _ => by
      cases a
      · trivial
      · exact fun _ _ => trivial
    refine h'.view_induction (I := fun v => ∀ op, .up op ∉ v.events) (by simp) ?_
    intro v f o v' hv _ hm op
    cases hm with
    | advance _ _ h =>
      cases h with
      | up hup' => exact absurd hup' hup
      | check => split_ifs <;> simp [hv op]
      | call | back | refuse | ready | noUp | upFailed | noCheck | healthy | unhealthy =>
          exact hv op
    | proceed _ _ h =>
      cases h with
      | downing => split_ifs <;> simp [hv op]
      | quiet | down | noDown => exact hv op
    | quiet | fresh | lead | fail | commit | stop | write => exact hv op
  intro later op earlier heq
  exact absurd (heq ▸ mem_append_right later mem_cons_self) (hevents op)

/-- A `Start` or `Stop` of the service. -/
def Frame.startsOrStops (n : String) : Frame → Bool
  | .start n' _ | .stop n' _ _ => n' = n
  | _ => false

/-- **A service that is reported stopped is down**, once no `Start` and no `Stop` of it is in
flight, in every run in which the health check after a successful `Up` comes out well, a
`Start` takes the lead only while no boot and no `Stop` of it is in flight, and a `Down` returns
only while no boot of it is. -/
theorem takenDown_of_stopped (M : DefaultManager) (n : String) (s : State)
    (h : Reached M (Seen n (TakesTurns n)) s) (hstopped : (s.memory.entry n).state = .stopped)
    (hnone : ∀ f ∈ s.frames, f.startsOrStops n = false) : TakenDown (s.memory.events n) := by
  by_cases hup : M.Composes n
  · have hinv := h.view_induction downInv_initial fun _ _ _ _ hv => hv.move hup
    rcases hinv.left with hdown | hrunning | ⟨idle, q, hq, -⟩ | ⟨p, hp, -⟩
    · exact hdown
    · cases hstopped.symm.trans hrunning
    · exact absurd (hnone _ (mem_of_mem_filter hq)) (by simp [Frame.startsOrStops])
    · exact absurd (hnone _ (mem_of_mem_filter hp)) (by simp [Frame.startsOrStops])
  · exact takenDown_of_not_composes hup h

/-- `db` is started and stopped; the `Stop` sets out while the boot is under way, and its `Down`
waits for it. -/
theorem takenDown_of_stopped_db :
    ∃ s, Reached (oneService db) (Seen "db" (TakesTurns "db")) s ∧
      (s.memory.entry "db").state = .stopped ∧ s.memory.events "db" = [.down, .healthy 0, .up 0] ∧
      TakenDown (s.memory.events "db") := by
  obtain ⟨s, hs, hstopped, hevents, hnone⟩ : ∃ s,
      Reached (oneService db) (Seen "db" (TakesTurns "db")) s ∧
      (s.memory.entry "db").state = .stopped ∧ s.memory.events "db" = [.down, .healthy 0, .up 0] ∧
      ∀ f ∈ s.frames, f.startsOrStops "db" = false :=
    Reach.exists_of_runMeeting
      (.call (.start "db") :: steps 0 3 ++ .call (.stop "db") :: steps 1 3 ++ steps 0 5 ++
        steps 1 3) (by decide +kernel)
  exact ⟨s, hs, hstopped, hevents,
    takenDown_of_stopped (oneService db) "db" s hs hstopped hnone⟩

/-- **A service can be reported stopped and be up.** Its health check fails after its `Up`; or a
`Stop` comes in before the `Up` and is through when the `Up` succeeds. Either way no call is in
flight any more, and a further `Stop` does nothing. -/
theorem stopped_not_takenDown :
    (∃ s, Reached (oneService db) Anyhow s ∧ (s.memory.entry "db").state = .stopped ∧
      (∀ f ∈ s.frames, f.startsOrStops "db" = false) ∧ ¬TakenDown (s.memory.events "db")) ∧
    ∃ s, Reached (oneService db) Anyhow s ∧ (s.memory.entry "db").state = .stopped ∧
      (∀ f ∈ s.frames, f.startsOrStops "db" = false) ∧
      s.memory.events "db" = [.healthy 0, .up 0, .down] ∧ ¬TakenDown (s.memory.events "db") := by
  constructor
  · obtain ⟨s, hs, hstopped, hnone, hevents⟩ : ∃ s, Reached (oneService db) Anyhow s ∧
        (s.memory.entry "db").state = .stopped ∧
        (∀ f ∈ s.frames, f.startsOrStops "db" = false) ∧ s.memory.events "db" = [.up 0] :=
      Reach.exists_of_runMeeting
        (.call (.start "db") :: steps 0 3 ++ .step 0 (some "refused") :: steps 0 4 ++
          .call (.stop "db") :: steps 1 2) (by decide +kernel)
    exact ⟨s, hs, hstopped, hnone, fun hdown => absurd (hdown [] 0 [] hevents) (by simp)⟩
  · obtain ⟨s, hs, hstopped, hnone, hevents⟩ : ∃ s, Reached (oneService db) Anyhow s ∧
        (s.memory.entry "db").state = .stopped ∧
        (∀ f ∈ s.frames, f.startsOrStops "db" = false) ∧
        s.memory.events "db" = [.healthy 0, .up 0, .down] :=
      Reach.exists_of_runMeeting
        (.call (.start "db") :: steps 0 2 ++ .call (.stop "db") :: steps 1 6 ++ steps 0 6)
        (by decide +kernel)
    exact ⟨s, hs, hstopped, hnone, hevents,
      fun hdown => absurd (hdown [.healthy 0] 0 [.down] hevents) (by simp)⟩

end Containers.Lifecycle
