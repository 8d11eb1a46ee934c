import Containers.Lifecycle.Steps

/-!
# The boots and stops of one service

Of everything the threads of a manager do, little matters for the state of one service: the `Start`s
that lead a boot of it and have not written the outcome, the `Stop`s that have made it `stopping`
and have not written theirs, and what compose and the health checker did for it. This is its *view*
(`View`).

`Move` says once what can happen to a view; and `move_of_turn`, the simulation, that nothing else
does: every step of any thread is a move of the view of every service, mostly the one that changes
nothing. `Reached.view_induction` is the invariant rule that comes of it. An invariant of a service
is proved over some ten moves, and never over the code again.
-/

namespace Containers.Lifecycle

open List Function

variable {idle : Bool} {p p' : StartPoint} {done : List ComposeEvent} {c : Call}

/-! ### The view of a service -/

/-- The points at which a `Start` leads a boot and has not written the outcome. -/
def StartPoint.boots : StartPoint → Bool
  | .deps _ _ | .awaitDep _ _ _ | .up _ | .check _ | .health _ _ | .fail _ _ | .commit _ => true
  | .enter | .wait _ | .monitor _ | .arm _ _ | .finish _ _ => false

def Frame.boots (n : String) : Frame → Bool
  | .start n' p => n' = n && p.boots
  | _ => false

/-- A `Stop` of the service that has made it `stopping`, and has not written the outcome. -/
def Frame.stops (n : String) : Frame → Bool
  | .stop n' _ p => n' = n && p ≠ .enter
  | _ => false

/-- **What matters for the state of a service.** -/
structure View where
  state : ServiceState
  startOp : Option ℕ
  nextOp : ℕ
  /-- What compose and the health checker did, latest first. -/
  events : List ComposeEvent
  /-- The boots and stops that are in flight. -/
  flight : List Frame

abbrev inFlight (n : String) (F : List Frame) : List Frame :=
  F.filter fun f => f.boots n || f.stops n

def view (n : String) (m : Memory) (F : List Frame) : View where
  state := (m.entry n).state
  startOp := (m.entry n).startOp
  nextOp := m.nextOp
  events := m.events n
  flight := inFlight n F

variable {M : DefaultManager} {n n' : String} {m m' : Memory} {o : Option String}
  {A B used made F : List Frame}

/-! ### What can happen to it -/

/-- How a boot goes on, and what is done for it. -/
inductive Advance (M : DefaultManager) (n : String) (o : Option String) :
    StartPoint → StartPoint → List ComposeEvent → Prop
  | call {op : ℕ} {dep : String} {rest : List String} :
      Advance M n o (.deps op (dep :: rest)) (.awaitDep op dep rest) []
  | back {op : ℕ} {dep : String} {rest : List String} :
      Advance M n o (.awaitDep op dep rest) (.deps op rest) []
  | refuse {op : ℕ} {dep : String} {rest : List String} {err : String} :
      Advance M n o (.awaitDep op dep rest) (.fail op err) []
  | ready {op : ℕ} : Advance M n o (.deps op []) (.up op) []
  | up {op : ℕ} (hup : M.Composes n) : Advance M n o (.up op) (.check op) [.up op]
  | noUp {op : ℕ} (hup : ¬M.Composes n) : Advance M n o (.up op) (.check op) []
  | upFailed {op : ℕ} {err : String} : Advance M n o (.up op) (.fail op err) []
  | check {op : ℕ} :
      Advance M n o (.check op) (.health op o) (if o.isNone then [.healthy op] else [])
  | noCheck {op : ℕ} (hcheck : M.checker = false) : Advance M n o (.check op) (.commit op) []
  | healthy {op : ℕ} : Advance M n o (.health op none) (.commit op) []
  | unhealthy {op : ℕ} {err err' : String} :
      Advance M n o (.health op (some err)) (.fail op err') []

/-- How a stop goes on, and what is done for it. -/
inductive Proceed (M : DefaultManager) (n : String) (o : Option String) :
    StopPoint → StopPoint → List ComposeEvent → Prop
  | quiet {found : ServiceState} {timer : Option ℕ} :
      Proceed M n o (.quiet found timer) (.down found) []
  | down {found : ServiceState} : Proceed M n o (.down found) (.downing found) []
  | noDown {found : ServiceState} (hdown : ¬M.Composes n) :
      Proceed M n o (.down found) (.write found none) []
  | downing {found : ServiceState} :
      Proceed M n o (.downing found) (.write found o) (if o.isNone then [.down] else [])

/-- **What can happen to the view of a service**, with the frame that makes the step and the
outcome it is given. -/
inductive Move (M : DefaultManager) (n : String) (v : View) (f : Frame) (o : Option String) :
    View → Prop
  | quiet : Move M n v f o v
  /-- A boot of another service. -/
  | fresh : Move M n v f o { v with nextOp := v.nextOp + 1 }
  | lead {A B : List Frame} {deps : List String} (hf : f = .start n .enter)
      (hstate : v.state = .stopped ∨ v.state = .stopping) (hv : v.flight = A ++ B) :
      Move M n v f o
        { v with state := .starting, startOp := some v.nextOp, nextOp := v.nextOp + 1,
                 flight := A ++ Frame.start n (.deps v.nextOp deps) :: B }
  | advance {A B : List Frame} {p p' : StartPoint} {done : List ComposeEvent}
      (hf : (∀ op dep rest, p ≠ .awaitDep op dep rest) → f = .start n p)
      (hv : v.flight = A ++ Frame.start n p :: B) (h : Advance M n o p p' done) :
      Move M n v f o { v with events := done ++ v.events, flight := A ++ Frame.start n p' :: B }
  | fail {A B : List Frame} {op : ℕ} {err : String} (hf : f = .start n (.fail op err))
      (hv : v.flight = A ++ Frame.start n (.fail op err) :: B) :
      Move M n v f o { v with state := .stopped, flight := A ++ B }
  | commit {A B : List Frame} {op : ℕ} (hv : v.flight = A ++ Frame.start n (.commit op) :: B) :
      Move M n v f o
        { v with state := if v.startOp = some op then
                     if v.state = .starting then .running else .stopped
                   else v.state,
                 flight := A ++ B }
  | stop {A B : List Frame} {idle : Bool} {timer : Option ℕ} (hf : f = .stop n idle .enter)
      (hstate : v.state ≠ .stopped) (hv : v.flight = A ++ B) :
      Move M n v f o
        { v with state := .stopping, flight := A ++ Frame.stop n idle (.quiet v.state timer) :: B }
  | proceed {A B : List Frame} {idle : Bool} {p p' : StopPoint} {done : List ComposeEvent}
      (hf : f = .stop n idle p) (hv : v.flight = A ++ Frame.stop n idle p :: B)
      (h : Proceed M n o p p' done) :
      Move M n v f o { v with events := done ++ v.events, flight := A ++ Frame.stop n idle p' :: B }
  | write {A B : List Frame} {idle : Bool} {found : ServiceState} {err : Option String}
      (hf : f = .stop n idle (.write found err))
      (hv : v.flight = A ++ Frame.stop n idle (.write found err) :: B) :
      Move M n v f o { v with state := err.elim .stopped fun _ => .running, flight := A ++ B }

/-! ### Steps that are not seen -/

/-- What is kept for a service and seen in its view is the same. -/
structure Unseen (n : String) (m m' : Memory) : Prop where
  state : (m'.entry n).state = (m.entry n).state
  startOp : (m'.entry n).startOp = (m.entry n).startOp
  nextOp : m'.nextOp = m.nextOp
  events : m'.events n = m.events n

theorem Unseen.refl : Unseen n m m := ⟨rfl, rfl, rfl, rfl⟩

theorem unseen_modify_of_ne (h : n' ≠ n) (f : ServiceEntry → ServiceEntry) :
    Unseen n m (m.modify n' f) := by
  have hentry : (m.modify n' f).entry n = m.entry n := update_of_ne h.symm _ _
  exact ⟨by rw [hentry], by rw [hentry], rfl, rfl⟩

theorem unseen_modify {f : ServiceEntry → ServiceEntry} (hstate : ∀ e, (f e).state = e.state)
    (hop : ∀ e, (f e).startOp = e.startOp) : Unseen n m (m.modify n' f) := by
  by_cases h : n' = n
  · subst h
    have hentry : (m.modify n' f).entry n' = f (m.entry n') := update_self _ _ _
    exact ⟨by rw [hentry, hstate], by rw [hentry, hop], rfl, rfl⟩
  · exact unseen_modify_of_ne h f

theorem events_note_of_ne (h : n' ≠ n) (e : ComposeEvent) :
    (m.note n' e).events n = m.events n := by
  simp [Memory.events, Memory.note, h]

theorem events_note (e : ComposeEvent) : (m.note n e).events n = e :: m.events n := by
  simp [Memory.events, Memory.note]

/-- The frames that are not in flight, as far as the view of a service goes. -/
def Grounded (n : String) (F : List Frame) : Prop := inFlight n F = []

theorem inFlight_of_grounded (h : Grounded n F) : inFlight n F = [] := h

theorem view_congr (hm : Unseen n m m') (hused : Grounded n used) (hmade : Grounded n made) :
    view n m' (A ++ (made ++ B)) = view n m (A ++ (used ++ B)) := by
  simp only [view, hm.state, hm.startOp, hm.nextOp, hm.events, filter_append,
    inFlight_of_grounded hused, inFlight_of_grounded hmade]

theorem grounded_iff : Grounded n F ↔ ∀ f ∈ F, f.boots n = false ∧ f.stops n = false := by
  simp [Grounded]

theorem grounded_nil : Grounded n [] := rfl

theorem Grounded.cons {f : Frame} (hboots : f.boots n = false) (hstops : f.stops n = false)
    (h : Grounded n F) : Grounded n (f :: F) :=
  grounded_iff.mpr (forall_mem_cons.mpr ⟨⟨hboots, hstops⟩, grounded_iff.mp h⟩)

theorem grounded_start_of_ne (hn : n' ≠ n) (p : StartPoint) : Grounded n [.start n' p] :=
  .cons (by simp [Frame.boots, hn]) rfl grounded_nil

theorem grounded_stop_of_ne (hn : n' ≠ n) (idle : Bool) (p : StopPoint) :
    Grounded n [.stop n' idle p] :=
  .cons rfl (by simp [Frame.stops, hn]) grounded_nil

theorem Grounded.cons_stop (h : Grounded n F) : Grounded n (.stop n' idle .enter :: F) :=
  .cons rfl (by simp [Frame.stops]) h

theorem Aside.unseen (h : Aside m m') (n : String) : Unseen n m m' :=
  ⟨h.state n, h.startOp n, h.nextOp, by rw [Memory.events, h.log, Memory.events]⟩

/-! ### The simulation -/

theorem view_eq {st : ServiceState} {op : Option ℕ} {k : ℕ} {events : List ComposeEvent}
    (hstate : (m.entry n).state = st) (hop : (m.entry n).startOp = op) (hk : m.nextOp = k)
    (hevents : m.events n = events) :
    view n m (A ++ (F ++ B)) =
    ⟨st, op, k, events, inFlight n A ++ (inFlight n F ++ inFlight n B)⟩ := by
  subst hstate hop hk hevents
  simp [view]

theorem view_setState (st : ServiceState) : view n (m.setState n st) (A ++ (F ++ B)) =
    ⟨st, (m.entry n).startOp, m.nextOp, m.events n,
    inFlight n A ++ (inFlight n F ++ inFlight n B)⟩ :=
  view_eq (by rw [Memory.setState, entry_modify]) (by rw [Memory.setState, entry_modify]) rfl rfl

theorem Move.of_unseen {f : Frame} (hm : Unseen n m m') (hused : Grounded n used)
    (hmade : Grounded n made) :
    Move M n (view n m (A ++ (used ++ B))) f o (view n m' (A ++ (made ++ B))) := by
  rw [view_congr hm hused hmade]
  exact .quiet

theorem move_of_startStep_of_ne (hn : n' ≠ n) {f : Frame}
    (h : startStep M m o n' p = some (m', made)) :
    Move M n (view n m (A ++ ([Frame.start n' p] ++ B))) f o (view n m' (A ++ (made ++ B))) := by
  have hground := grounded_start_of_ne hn
  have hentry := entry_of_startStep_of_ne hn h
  have hsame : m'.nextOp = m.nextOp → m'.events n = m.events n → Grounded n made →
      Move M n (view n m (A ++ ([Frame.start n' p] ++ B))) f o (view n m' (A ++ (made ++ B))) :=
    fun hk hevents => .of_unseen ⟨by rw [hentry], by rw [hentry], hk, hevents⟩ (hground p)
  cases startStep_cases h with
  | missing | already | orphaned | told | finish => exact hsame rfl rfl rfl
  | @lead spec =>
    have hlead :
        view n (m.lead n') (A ++ ([Frame.start n' (.deps m.nextOp spec.dependencies)] ++ B))
        = { view n m (A ++ ([Frame.start n' .enter] ++ B)) with nextOp := m.nextOp + 1 } := by
      rw [view_eq (m := m.lead n') (by rw [hentry]) (by rw [hentry]) rfl rfl,
        view_eq rfl rfl rfl rfl,
        inFlight_of_grounded (hground _), inFlight_of_grounded (hground .enter)]
      rfl
    rw [hlead]
    exact .fresh
  | call =>
    exact hsame rfl rfl (.cons (by simp [Frame.boots, StartPoint.boots]) rfl (hground _))
  | up => exact hsame rfl (events_note_of_ne hn _) (hground _)
  | check =>
    split_ifs at hsame ⊢
    · exact hsame rfl (events_note_of_ne hn _) (hground _)
    · exact hsame rfl rfl (hground _)
  | _ => exact hsame rfl rfl (hground _)

theorem unseen_of_stopStep_of_ne (hn : n' ≠ n) {p : StopPoint}
    (h : stopStep M m o n' idle p = some (m', made)) : Unseen n m m' ∧ Grounded n made := by
  have hground := grounded_stop_of_ne hn idle
  cases p with
  | enter =>
    rw [stopStep] at h
    split_ifs at h <;> cases h
    · exact ⟨.refl, rfl⟩
    · exact ⟨unseen_modify_of_ne hn _, hground _⟩
    · exact ⟨.refl, rfl⟩
  | quiet found timer =>
    cases h
    cases timer <;> exact ⟨⟨rfl, rfl, rfl, rfl⟩, hground _⟩
  | down found =>
    cases h
    exact ⟨.refl, hground _⟩
  | downing found =>
    cases h
    refine ⟨?_, hground _⟩
    split_ifs
    · exact ⟨rfl, rfl, rfl, events_note_of_ne hn _⟩
    · exact .refl
  | write found err =>
    cases err <;> cases h <;> exact ⟨unseen_modify_of_ne hn _, rfl⟩

theorem inFlight_boot (hp : p.boots = true) : inFlight n [.start n p] = [.start n p] := by
  simp [Frame.boots, hp]

theorem grounded_start (hp : p.boots = false) : Grounded n [.start n p] := by
  simp [grounded_iff, Frame.boots, Frame.stops, hp]

theorem inFlight_stop {p : StopPoint} (hp : p ≠ .enter) :
    inFlight n [.stop n idle p] = [.stop n idle p] := by
  simp [Frame.stops, hp]

theorem Move.of_advance {f : Frame} (h : Advance M n o p p' done)
    (hm : (m'.entry n).state = (m.entry n).state ∧ (m'.entry n).startOp = (m.entry n).startOp ∧
      m'.nextOp = m.nextOp ∧ m'.events n = done ++ m.events n)
    (hf : (∀ op dep rest, p ≠ .awaitDep op dep rest) → f = .start n p)
    (hused : inFlight n used = [.start n p]) (hmade : inFlight n made = [.start n p']) :
    Move M n (view n m (A ++ (used ++ B))) f o (view n m' (A ++ (made ++ B))) := by
  obtain ⟨hstate, hop, hk, hevents⟩ := hm
  rw [view_eq hstate hop hk hevents, view_eq rfl rfl rfl rfl, hused, hmade]
  exact .advance hf rfl h

theorem Move.of_commit {op : ℕ} {f : Frame}
    (hstate : (m'.entry n).state = if (m.entry n).startOp = some op then
      if (m.entry n).state = .starting then .running else .stopped else (m.entry n).state)
    (hop : (m'.entry n).startOp = (m.entry n).startOp) (hk : m'.nextOp = m.nextOp)
    (hevents : m'.events n = m.events n) (hmade : Grounded n made) :
    Move M n (view n m (A ++ ([Frame.start n (.commit op)] ++ B))) f o
      (view n m' (A ++ (made ++ B))) := by
  rw [view_eq hstate hop hk hevents, view_eq rfl rfl rfl rfl, inFlight_boot rfl,
    inFlight_of_grounded hmade]
  exact .commit rfl

theorem move_of_startStep (h : startStep M m o n p = some (m', made)) :
    Move M n (view n m (A ++ ([Frame.start n p] ++ B))) (.start n p) o
      (view n m' (A ++ (made ++ B))) := by
  have hadvance : ∀ {p' done}, Advance M n o p p' done →
      ((m'.entry n).state = (m.entry n).state ∧ (m'.entry n).startOp = (m.entry n).startOp ∧
        m'.nextOp = m.nextOp ∧ m'.events n = done ++ m.events n) → p.boots = true →
      inFlight n made = [.start n p'] →
      Move M n (view n m (A ++ ([Frame.start n p] ++ B))) (.start n p) o
        (view n m' (A ++ (made ++ B))) :=
    fun h hm hp hmade => .of_advance h hm (fun _ => rfl) (inFlight_boot hp) hmade
  have hm : ∀ b, Unseen n m (m.modify n fun e => { e with healthy := b }) := fun b =>
    unseen_modify (fun _ => rfl) fun _ => rfl
  cases startStep_cases h with
  | missing | already | orphaned | told => exact .of_unseen .refl (grounded_start rfl) rfl
  | follow | noMonitor => exact .of_unseen .refl (grounded_start rfl) (grounded_start rfl)
  | lead hspec hstate =>
    have hentry : (m.lead n).entry n
        = { m.entry n with state := .starting, startOp := some m.nextOp } :=
      update_self _ _ _
    rw [view_eq (m := m.lead n) (by rw [hentry]) (by rw [hentry]) rfl rfl,
      view_eq rfl rfl rfl rfl, inFlight_of_grounded (grounded_start rfl), inFlight_boot rfl]
    exact .lead rfl hstate rfl
  | ready => exact hadvance .ready ⟨rfl, rfl, rfl, rfl⟩ rfl (inFlight_boot rfl)
  | call =>
    refine hadvance .call ⟨rfl, rfl, rfl, rfl⟩ rfl ?_
    simp [Frame.boots, Frame.stops, StartPoint.boots]
  | up hup => exact hadvance (.up hup) ⟨rfl, rfl, rfl, events_note _⟩ rfl (inFlight_boot rfl)
  | noUp hup => exact hadvance (.noUp hup) ⟨rfl, rfl, rfl, rfl⟩ rfl (inFlight_boot rfl)
  | upFailed => exact hadvance .upFailed ⟨rfl, rfl, rfl, rfl⟩ rfl (inFlight_boot rfl)
  | check =>
    refine hadvance .check ?_ rfl (inFlight_boot rfl)
    split_ifs
    · exact ⟨rfl, rfl, rfl, events_note _⟩
    · exact ⟨rfl, rfl, rfl, rfl⟩
  | noCheck hcheck => exact hadvance (.noCheck hcheck) ⟨rfl, rfl, rfl, rfl⟩ rfl (inFlight_boot rfl)
  | healthy =>
    exact hadvance .healthy ⟨(hm _).state, (hm _).startOp, rfl, rfl⟩ rfl (inFlight_boot rfl)
  | unhealthy =>
    exact hadvance .unhealthy ⟨(hm _).state, (hm _).startOp, rfl, rfl⟩ rfl (inFlight_boot rfl)
  | fail =>
    rw [view_setState, view_eq rfl rfl rfl rfl, inFlight_boot rfl,
      inFlight_of_grounded (grounded_start rfl)]
    exact .fail rfl rfl
  | own hop hstate =>
    exact .of_commit (by rw [if_pos hop, if_pos hstate, Memory.setState, entry_modify])
      (by rw [Memory.setState, entry_modify]) rfl rfl (grounded_start rfl)
  | cancelled hop hstate =>
    exact .of_commit (by rw [if_pos hop, if_neg hstate, entry_modify])
      (by rw [entry_modify]) rfl rfl
      (grounded_start rfl)
  | superseded hop =>
    exact .of_commit (by rw [if_neg hop]) rfl rfl rfl (grounded_start rfl)
  | monitor =>
    have hu : Unseen n m (m.modify n fun e => { e with idleCtrl := some m.timers.length }) :=
      unseen_modify (fun _ => rfl) fun _ => rfl
    exact .of_unseen ⟨hu.state, hu.startOp, rfl, rfl⟩ (grounded_start rfl) (grounded_start rfl)
  | arm => exact .of_unseen ⟨rfl, rfl, rfl, rfl⟩ (grounded_start rfl) (grounded_start rfl)
  | finish => exact .of_unseen ⟨rfl, rfl, rfl, rfl⟩ (grounded_start rfl) rfl

theorem move_of_stopStep {p : StopPoint} (h : stopStep M m o n idle p = some (m', made)) :
    Move M n (view n m (A ++ ([Frame.stop n idle p] ++ B))) (.stop n idle p) o
      (view n m' (A ++ (made ++ B))) := by
  cases p with
  | enter =>
    have hground : Grounded n [.stop n idle .enter] := grounded_nil.cons_stop
    rw [stopStep] at h
    split_ifs at h with hmem hstate <;> cases h
    · exact .of_unseen .refl hground rfl
    · rw [view_setState, view_eq rfl rfl rfl rfl, inFlight_of_grounded hground,
        inFlight_stop (by simp)]
      exact .stop rfl hstate rfl
    · exact .of_unseen .refl hground rfl
  | quiet found timer =>
    cases h
    have hm : Unseen n m (timer.elim m fun t =>
        { m with timers := m.timers.modify t fun t => { t with stopped := true } }) := by
      cases timer <;> exact ⟨rfl, rfl, rfl, rfl⟩
    rw [view_eq hm.state hm.startOp hm.nextOp hm.events, view_eq rfl rfl rfl rfl,
      inFlight_stop (by simp), inFlight_stop (by simp)]
    exact .proceed rfl rfl .quiet
  | down found =>
    cases h
    rw [view_eq rfl rfl rfl rfl, view_eq rfl rfl rfl rfl, inFlight_stop (by simp)]
    by_cases hdown : M.Composes n
    · rw [if_pos hdown, inFlight_stop (by simp)]
      exact .proceed rfl rfl .down
    · rw [if_neg hdown, inFlight_stop (by simp)]
      exact .proceed rfl rfl (.noDown hdown)
  | downing found =>
    cases h
    have hm : ((if o.isNone then m.note n .down else m).entry n) = m.entry n ∧
        (if o.isNone then m.note n .down else m).nextOp = m.nextOp ∧
        (if o.isNone then m.note n .down else m).events n
          = (if o.isNone then [.down] else []) ++ m.events n := by
      split_ifs
      · exact ⟨rfl, rfl, events_note _⟩
      · exact ⟨rfl, rfl, rfl⟩
    obtain ⟨hentry, hk, hevents⟩ := hm
    rw [view_eq (by rw [hentry]) (by rw [hentry]) hk hevents, view_eq rfl rfl rfl rfl,
      inFlight_stop (by simp), inFlight_stop (by simp)]
    exact .proceed rfl rfl .downing
  | write found err =>
    cases err with
    | none =>
      cases h
      rw [view_eq (m := m.modify n _) (by rw [entry_modify]) (by rw [entry_modify]) rfl rfl,
        view_eq rfl rfl rfl rfl, inFlight_stop (by simp)]
      exact .write (rfl : Frame.stop n idle (.write found none) = _) rfl
    | some err =>
      cases h
      rw [view_setState, view_eq rfl rfl rfl rfl, inFlight_stop (by simp)]
      exact .write (rfl : Frame.stop n idle (.write found (some err)) = _) rfl

/-- **The simulation**: every step of any thread is a move of the view of every service. -/
theorem move_of_turn (hturn : Turn M m o used m' made) :
    ∃ f ∈ used.head?, Move M n (view n m (A ++ (used ++ B))) f o
      (view n m' (A ++ (made ++ B))) := by
  refine ⟨used.head (by cases hturn <;> simp), head?_eq_some_head _, ?_⟩
  have hstart : ∀ {n' p}, startStep M m o n' p = some (m', made) →
      Move M n (view n m (A ++ ([Frame.start n' p] ++ B))) (.start n' p) o
        (view n m' (A ++ (made ++ B))) := by
    intro n' p h
    by_cases hn : n' = n
    · subst hn
      exact move_of_startStep h
    · exact move_of_startStep_of_ne hn h
  cases turnStep_of_turn hturn with
  | start h | startRet h => exact hstart h
  | startCall => exact hstart rfl
  | @stop n' idle p _ _ h | @stopRet n' idle p _ _ h =>
    by_cases hn : n' = n
    · subst hn
      exact move_of_stopStep h
    · obtain ⟨hm, hmade⟩ := unseen_of_stopStep_of_ne hn h
      exact .of_unseen hm (grounded_stop_of_ne hn idle p) hmade
  | acquire h | acquireRet h => exact .of_unseen ((beside_of_acquireStep h).1.unseen n) rfl rfl
  | acquireCall h =>
    refine .of_unseen ((beside_of_acquireStep h).1.unseen n) rfl (.cons ?_ rfl rfl)
    simp [Frame.boots, StartPoint.boots]
  | release _ h | releaseRet _ h => exact .of_unseen ((beside_of_releaseStep h).1.unseen n) rfl rfl
  | fire _ h => exact .of_unseen ((keeps_of_fireStep h).2.1.unseen n) rfl grounded_nil.cons_stop
  | fireRet _ h => exact .of_unseen ((keeps_of_fireStep h).2.1.unseen n) rfl rfl
  | shutdown => exact .of_unseen .refl rfl (grounded_nil.cons rfl rfl).cons_stop
  | @depRet err n' dep op rest p hp =>
    by_cases hn : n' = n
    · subst hn
      have hused : inFlight n' [.ret err, .start n' (.awaitDep op dep rest)]
          = [.start n' (.awaitDep op dep rest)] := inFlight_boot rfl
      rcases hp with ⟨-, rfl⟩ | ⟨text, rfl⟩
      · exact .of_advance .back ⟨rfl, rfl, rfl, rfl⟩ (fun h => absurd rfl (h _ _ _)) hused
          (inFlight_boot rfl)
      · exact .of_advance .refuse ⟨rfl, rfl, rfl, rfl⟩ (fun h => absurd rfl (h _ _ _)) hused
          (inFlight_boot rfl)
    · exact .of_unseen .refl (.cons rfl rfl (grounded_start_of_ne hn _))
        (grounded_start_of_ne hn _)
  | shutdownRet | bootRet | nextStop | leave => exact .of_unseen ⟨rfl, rfl, rfl, rfl⟩ rfl rfl

theorem grounded_of_call {f : Frame} (h : call m c = some [f]) : Grounded n [f] := by
  rcases opening_of_call h <;> simp [grounded_iff, Frame.boots, Frame.stops, StartPoint.boots]

theorem view_call {f : Frame} (h : call m c = some [f]) : view n m (F ++ [f]) = view n m F := by
  have hflight : inFlight n (F ++ [f]) = inFlight n F := by
    rw [inFlight, filter_append]
    exact (congrArg _ (grounded_of_call h)).trans (append_nil _)
  rw [view, hflight, view]

/-- A condition on the steps of a run that is read off the view of a service. -/
abbrev Seen (n : String) (D : View → Frame → Option String → Prop) : Condition :=
  fun m F => D (view n m F)

/-- **The invariant rule for a service**: what holds of an untouched service and is kept by
every move that meets the condition holds in every state that is reached. -/
theorem Reached.view_induction {D : View → Frame → Option String → Prop} {I : View → Prop}
    (hinit : I ⟨.stopped, none, 0, [], []⟩)
    (hmove : ∀ v f o v', I v → D v f o → Move M n v f o v' → I v') {s : State}
    (h : Reached M (Seen n D) s) : I (view n s.memory s.frames) := by
  refine frames_induction h (I := fun m F => I (view n m F)) hinit ?_ ?_
  · intro m F c f hI hc
    rwa [view_call hc]
  · intro m A B used o m' made hI hC hturn
    obtain ⟨f, hf, hmoved⟩ := move_of_turn hturn
    exact hmove _ _ _ _ hI (hC f hf) hmoved

/-! ### What the conditions look at -/

section Conditions

variable {v : View} {f : Frame}

/-- The frame is a `Start` of the service that is about to lead. -/
def Leads (n : String) (v : View) (f : Frame) : Prop :=
  f = .start n .enter ∧ (v.state = .stopped ∨ v.state = .stopping)

/-- The frame is a `Stop` of the service that is about to make it `stopping`. -/
def Halts (n : String) (v : View) (f : Frame) : Prop :=
  (f = .stop n false .enter ∨ f = .stop n true .enter) ∧ v.state ≠ .stopped

/-- What a `Stop` of the service found, when compose is at work for it. -/
def Frame.downing (n : String) : Frame → Option ServiceState
  | .stop n' _ (.downing found) => if n' = n then some found else none
  | _ => none

instance : Decidable (Leads n v f) := inferInstanceAs (Decidable (_ ∧ _))

instance : Decidable (Halts n v f) := inferInstanceAs (Decidable (_ ∧ _))

end Conditions

/-! ### Handles, and frames that are alone -/

/-- The boot of a leading `Start`. -/
def StartPoint.op : StartPoint → ℕ
  | .enter => 0
  | .wait op | .deps op _ | .awaitDep op _ _ | .up op | .check op | .health op _ | .fail op _ => op
  | .commit op | .monitor op | .arm op _ | .finish op _ => op

theorem Advance.op_eq (h : Advance M n o p p' done) : p'.op = p.op := by
  cases h <;> rfl

theorem others_of_alone {q : Frame → Bool} {g : Frame} (h : (A ++ g :: B).countP q ≤ 1)
    (hg : q g = true) : ∀ g' ∈ A ++ B, q g' = false := by
  rw [perm_middle.countP_eq, countP_cons_of_pos hg] at h
  simpa using countP_eq_zero.mp (Nat.le_zero.mp (Nat.le_of_succ_le_succ h))

theorem stops_stop {p : StopPoint} (hp : p ≠ .enter) : (Frame.stop n idle p).stops n = true := by
  simp [Frame.stops, hp]

end Containers.Lifecycle
