import Containers.Lifecycle.Handles

/-!
# The idle timers

A service that idles has a timer, which the boot that makes it `running` installs in one section and
arms in the next, and which a `Stop` reads in one section and stops in the next. In between the
timer is held by a frame. `TimerTurn` says once what a step can do to the timers, and `Timed` is
what it keeps: a timer is held for the service that it is of. So a step of one service never touches
the armed timers of another (`TimerTurn.elsewhere`).
-/

namespace Containers.Lifecycle

open List Memory

variable {t t' : ℕ} {M : DefaultManager} {m m' : Memory} {o : Option String} {n : String}
  {A B used made F : List Frame}

/-! ### Timers -/

/-- A timer of the service that is armed and not stopped. -/
def IdleShutdown.armedFor (n : String) (timer : IdleShutdown) : Bool :=
  timer.service = n && (timer.armed && !timer.stopped)

/-- **The armed timers of a service.** -/
def Memory.armed (m : Memory) (n : String) : List ℕ :=
  (range m.timers.length).filter fun t => m.timers[t]?.any (·.armedFor n)

theorem mem_armed :
    t ∈ m.armed n ↔ ∃ timer, m.timers[t]? = some timer ∧ timer.armedFor n = true := by
  rw [armed, mem_filter, mem_range, Option.any_eq_true]
  refine ⟨fun h => h.2, fun h => ⟨?_, h⟩⟩
  obtain ⟨timer, htimer, -⟩ := h
  exact (List.getElem?_eq_some_iff.mp htimer).1

def Memory.OwnsTimer (m : Memory) (n : String) (t : ℕ) : Prop :=
  ∃ timer, m.timers[t]? = some timer ∧ timer.service = n

/-- The timer that a frame holds, with the service that it holds it for. -/
def Frame.timer : Frame → Option (String × ℕ)
  | .start n (.arm _ t) => some (n, t)
  | .stop n _ (.quiet _ (some t)) => some (n, t)
  | _ => none

/-- **What a step can do to the timers.** -/
inductive TimerTurn (m : Memory) : List Frame → Memory → List Frame → Prop
  /-- It leaves them alone, and passes on at most the timer of the service. -/
  | kept {used made : List Frame} {m' : Memory} (htimers : m'.timers = m.timers)
      (hctrl : ∀ n, (m'.entry n).idleCtrl = (m.entry n).idleCtrl)
      (hmade : ∀ f ∈ made, ∀ n t, f.timer = some (n, t) → (m.entry n).idleCtrl = some t) :
      TimerTurn m used m' made
  /-- A boot gives the service a new one. -/
  | create {n : String} {op : ℕ} :
      TimerTurn m [.start n (.monitor op)]
        { m.modify n fun e => { e with idleCtrl := some m.timers.length } with
          timers := m.timers ++ [{ service := n }] } [.start n (.arm op m.timers.length)]
  | arm {n : String} {op t : ℕ} :
      TimerTurn m [.start n (.arm op t)]
        { m with timers := m.timers.modify t fun t => { t with armed := true, stopped := false } }
        [.start n (.finish op none)]
  /-- A `Stop` stops it. -/
  | quiet {n : String} {idle : Bool} {found : ServiceState} {t : ℕ} :
      TimerTurn m [.stop n idle (.quiet found (some t))]
        { m with timers := m.timers.modify t fun t => { t with stopped := true } }
        [.stop n idle (.down found)]
  /-- It fires, and is done. -/
  | fire {t : ℕ} {timer : IdleShutdown} (htimer : m.timers[t]? = some timer) :
      TimerTurn m [.fire t] { m with timers := m.timers.set t { timer with stopped := true } }
        [.stop timer.service true .enter]

theorem untimed_modify {f : ServiceEntry → ServiceEntry} (hf : ∀ e, (f e).idleCtrl = e.idleCtrl) :
    Untimed m (m.modify n f) :=
  ⟨rfl, entry_field rfl hf⟩

theorem untimed_note (c : Prop) [Decidable c] (e : ComposeEvent) :
    Untimed m (if c then m.note n e else m) := by
  split_ifs <;> exact ⟨rfl, fun _ => rfl⟩

theorem TimerTurn.of_untimed (h : Untimed m m') (hmade : ∀ f ∈ made, f.timer = none) :
    TimerTurn m used m' made := by
  refine .kept h.timers h.idleCtrl fun f hf n t ht => ?_
  cases (hmade f hf).symm.trans ht

theorem timerTurn_of_startStep {p : StartPoint} (h : startStep M m o n p = some (m', made)) :
    TimerTurn m [.start n p] m' made := by
  cases startStep_cases h with
  | lead =>
    let lead : ServiceEntry → ServiceEntry := fun e =>
      { e with state := .starting, startOp := some m.nextOp }
    exact .of_untimed ⟨rfl, entry_field (f := lead) rfl fun _ => rfl⟩ (by simp [Frame.timer])
  | check => exact .of_untimed (untimed_note _ _) (by simp [Frame.timer])
  | healthy | unhealthy | fail | own | cancelled =>
    exact .of_untimed (untimed_modify fun _ => rfl) (by simp [Frame.timer])
  | monitor => exact .create
  | arm => exact .arm
  | _ => exact .of_untimed ⟨rfl, fun _ => rfl⟩ (by simp [Frame.timer])

theorem timerTurn_of_stopStep {idle : Bool} {p : StopPoint}
    (h : stopStep M m o n idle p = some (m', made)) : TimerTurn m [.stop n idle p] m' made := by
  cases p with
  | enter =>
    rw [stopStep] at h
    split_ifs at h <;> cases h
    · exact .of_untimed .refl (by simp [Frame.timer])
    · have hm : Untimed m (m.setState n .stopping) := untimed_modify fun _ => rfl
      refine .kept rfl hm.idleCtrl fun f hf n' t ht => ?_
      cases mem_singleton.mp hf
      rcases hctrl : (m.entry n).idleCtrl with _ | t'
      · rw [hctrl] at ht
        cases ht
      · rw [hctrl] at ht
        cases ht
        exact hctrl
    · exact .of_untimed .refl (by simp [Frame.timer])
  | quiet found timer =>
    cases h
    rcases timer with _ | t
    · exact .of_untimed .refl (by simp [Frame.timer])
    · exact .quiet
  | down found =>
    cases h
    refine .of_untimed .refl fun f hf => ?_
    cases mem_singleton.mp hf
    split_ifs <;> rfl
  | downing found =>
    cases h
    exact .of_untimed (untimed_note _ _) (by simp [Frame.timer])
  | write found err =>
    cases err <;> cases h <;>
      exact .of_untimed (untimed_modify fun _ => rfl) (by simp [Frame.timer])

theorem timerTurn_of_turn (hturn : Turn M m o used m' made) : TimerTurn m used m' made := by
  cases turnStep_of_turn hturn with
  | start h | startRet h => exact timerTurn_of_startStep h
  | stop h | stopRet h => exact timerTurn_of_stopStep h
  | acquire h | acquireCall h | acquireRet h =>
    exact .of_untimed (beside_of_acquireStep h).1.toUntimed (by simp [Frame.timer])
  | release _ h | releaseRet _ h =>
    exact .of_untimed (beside_of_releaseStep h).1.toUntimed (by simp [Frame.timer])
  | fire htimer h =>
    rw [fireStep] at h
    split_ifs at h <;> cases h
    exact .fire htimer
  | fireRet _ h =>
    rw [fireStep] at h
    split_ifs at h <;> cases h
    exact .of_untimed .refl (by simp [Frame.timer])
  | depRet hp =>
    refine .of_untimed .refl fun f hf => ?_
    cases mem_singleton.mp hf
    rcases hp with ⟨-, rfl⟩ | ⟨text, rfl⟩ <;> rfl
  | startCall | shutdown | shutdownRet | bootRet | nextStop | leave =>
    exact .of_untimed ⟨rfl, fun _ => rfl⟩ (by simp [Frame.timer])

/-! ### Whose timer it is -/

/-- **The invariant of the pointers**: a timer is held for the service that it is of. -/
structure Timed (m : Memory) (F : List Frame) : Prop where
  ctrl : ∀ n, ∀ t ∈ (m.entry n).idleCtrl, m.OwnsTimer n t
  frames : ∀ f ∈ F, ∀ n t, f.timer = some (n, t) → m.OwnsTimer n t

theorem timed_initial : Timed {} [] where
  ctrl _ _ h := by cases h
  frames _ h := absurd h not_mem_nil

theorem ownsTimer_modify {f : IdleShutdown → IdleShutdown}
    (hf : ∀ timer, (f timer).service = timer.service) (h : m.OwnsTimer n t') :
    OwnsTimer { m with timers := m.timers.modify t f } n t' := by
  obtain ⟨timer, htimer, hservice⟩ := h
  refine ⟨if t = t' then f timer else timer, ?_, ?_⟩
  · rw [getElem?_modify, htimer]
    split_ifs <;> rfl
  · split_ifs
    · rw [hf, hservice]
    · exact hservice

theorem TimerTurn.ownsTimer (h : TimerTurn m used m' made) (ht : m.OwnsTimer n t) :
    m'.OwnsTimer n t := by
  cases h with
  | kept htimers =>
    obtain ⟨timer, htimer, hservice⟩ := ht
    exact ⟨timer, by rw [htimers, htimer], hservice⟩
  | create =>
    obtain ⟨timer, htimer, hservice⟩ := ht
    refine ⟨timer, ?_, hservice⟩
    rw [getElem?_append_left (List.getElem?_eq_some_iff.mp htimer).1, htimer]
  | arm | quiet =>
    refine ownsTimer_modify ?_ ht
    exact fun _ => rfl
  | @fire t' timer' htimer' =>
    obtain ⟨timer, htimer, hservice⟩ := ht
    by_cases htt : t' = t
    · subst htt
      cases htimer'.symm.trans htimer
      refine ⟨{ timer' with stopped := true }, ?_, hservice⟩
      rw [getElem?_set_self (List.getElem?_eq_some_iff.mp htimer).1]
    · exact ⟨timer, by rw [getElem?_set_ne htt, htimer], hservice⟩

theorem Timed.turn (h : Timed m (A ++ (used ++ B))) (hturn : TimerTurn m used m' made) :
    Timed m' (A ++ (made ++ B)) := by
  have hkeep : ∀ {n t}, m.OwnsTimer n t → m'.OwnsTimer n t := hturn.ownsTimer
  have hold : ∀ f ∈ A ++ B, ∀ n t, f.timer = some (n, t) → m'.OwnsTimer n t :=
    fun f hf n t ht => hkeep (Sections.forall_mem_rest h.frames f hf n t ht)
  have hnew : (∀ n, ∀ t ∈ (m'.entry n).idleCtrl, m'.OwnsTimer n t) ∧
      ∀ f ∈ made, ∀ n t, f.timer = some (n, t) → m'.OwnsTimer n t := by
    cases hturn with
    | kept htimers hctrl hmade =>
      refine ⟨fun n t ht => ?_, fun f hf n t ht => ?_⟩
      · rw [hctrl] at ht
        exact hkeep (h.ctrl n t ht)
      · exact hkeep (h.ctrl n t (hmade f hf n t ht))
    | @create n op =>
      have hown : OwnsTimer { m.modify n fun e => { e with idleCtrl := some m.timers.length }
          with timers := m.timers ++ [{ service := n }] } n m.timers.length :=
        ⟨{ service := n }, by simp, rfl⟩
      refine ⟨fun n' t ht => ?_, fun f hf n' t ht => ?_⟩
      · by_cases hn : n' = n
        · subst hn
          have ht' : some m.timers.length = some t := by
            rwa [show (entry _ n').idleCtrl = _ from congrArg (·.idleCtrl) entry_modify] at ht
          cases ht'
          exact hown
        · refine hkeep (h.ctrl n' t ?_)
          rwa [show entry _ n' = m.entry n' from Function.update_of_ne hn _ _] at ht
      · cases mem_singleton.mp hf
        cases ht
        exact hown
    | arm | quiet | fire =>
      refine ⟨fun n t ht => hkeep (h.ctrl n t ht), fun f hf n t ht => ?_⟩
      cases mem_singleton.mp hf
      cases ht
  exact ⟨hnew.1, Sections.forall_mem_made hold hnew.2⟩

/-! ### What a step does to the armed timers -/

theorem mem_armed_of_timers_eq (h : m'.timers = m.timers) : t ∈ m'.armed n ↔ t ∈ m.armed n := by
  rw [mem_armed, mem_armed, h]

theorem mem_armed_create {n' : String} (h : m'.timers = m.timers ++ [{ service := n' }]) :
    t ∈ m'.armed n ↔ t ∈ m.armed n := by
  rw [mem_armed, mem_armed, h]
  constructor
  · rintro ⟨timer, htimer, harmed⟩
    rcases Nat.lt_or_ge t m.timers.length with ht | ht
    · rw [getElem?_append_left ht] at htimer
      exact ⟨timer, htimer, harmed⟩
    · rw [getElem?_append_right ht, getElem?_singleton] at htimer
      split_ifs at htimer
      cases htimer
      simp [IdleShutdown.armedFor] at harmed
  · rintro ⟨timer, htimer, harmed⟩
    refine ⟨timer, ?_, harmed⟩
    rw [getElem?_append_left (List.getElem?_eq_some_iff.mp htimer).1, htimer]

theorem mem_armed_arm {n' : String} (hown : m.OwnsTimer n' t')
    (h : m'.timers = m.timers.modify t' fun t => { t with armed := true, stopped := false }) :
    t ∈ m'.armed n ↔ t ∈ m.armed n ∨ n' = n ∧ t = t' := by
  obtain ⟨timer', htimer', rfl⟩ := hown
  rw [mem_armed, mem_armed, h]
  by_cases htt : t' = t
  · subst htt
    rw [getElem?_modify_eq, htimer']
    simp only [IdleShutdown.armedFor]
    constructor
    · intro hservice
      exact .inr ⟨by simpa using hservice, trivial⟩
    · rintro (hservice | ⟨hservice, -⟩)
      · simp at hservice
        simp [hservice.1]
      · simp [hservice]
  · rw [getElem?_modify_ne _ _ htt]
    simp [Ne.symm htt]

theorem mem_armed_stop (h : m'.timers = m.timers.modify t' fun t => { t with stopped := true }) :
    t ∈ m'.armed n ↔ t ∈ m.armed n ∧ t ≠ t' := by
  rw [mem_armed, mem_armed, h]
  by_cases htt : t' = t
  · subst htt
    rw [getElem?_modify_eq]
    simp only [ne_eq, not_true_eq_false, and_false, iff_false, not_exists, not_and]
    rintro timer htimer
    obtain ⟨old, -, rfl⟩ := Option.map_eq_some_iff.mp htimer
    simp [IdleShutdown.armedFor]
  · rw [getElem?_modify_ne _ _ htt]
    simp [Ne.symm htt]

theorem set_timer_eq_modify {timer : IdleShutdown} (h : m.timers[t]? = some timer) :
    m.timers.set t { timer with stopped := true } =
      m.timers.modify t fun t => { t with stopped := true } := by
  refine ext_getElem? fun t' => ?_
  by_cases htt : t = t'
  · subst htt
    rw [getElem?_set_self (List.getElem?_eq_some_iff.mp h).1, getElem?_modify_eq, h]
    rfl
  · rw [getElem?_set_ne htt, getElem?_modify_ne _ _ htt]

/-- **A step that does not concern the timers of the service.** -/
theorem TimerTurn.elsewhere (h : TimerTurn m used m' made) (htimed : Timed m (A ++ (used ++ B)))
    (hheld : ∀ f ∈ used, ∀ t, f.timer ≠ some (n, t))
    (hmonitor : ∀ op, .start n (.monitor op) ∉ used)
    (hfire : ∀ t, .fire t ∈ used → ¬m.OwnsTimer n t) :
    (m'.entry n).idleCtrl = (m.entry n).idleCtrl ∧ ∀ t, t ∈ m'.armed n ↔ t ∈ m.armed n := by
  have howned : ∀ f ∈ used, ∀ n' t, f.timer = some (n', t) → m.OwnsTimer n' t := fun f hf =>
    htimed.frames f (mem_append_right _ (mem_append_left _ hf))
  have hstop : ∀ {t' : ℕ}, ¬m.OwnsTimer n t' → ∀ t, (t ∈ m.armed n ∧ t ≠ t') ↔ t ∈ m.armed n := by
    intro t' hnot t
    refine and_iff_left_of_imp fun ht => ?_
    rintro rfl
    obtain ⟨timer, htimer, harmed⟩ := mem_armed.mp ht
    refine hnot ⟨timer, htimer, ?_⟩
    rw [IdleShutdown.armedFor, Bool.and_eq_true, decide_eq_true_eq] at harmed
    exact harmed.1
  -- a timer has one service
  have hone : ∀ {n' : String} {t : ℕ}, m.OwnsTimer n' t → n' ≠ n → ¬m.OwnsTimer n t := by
    rintro n' t ⟨timer, htimer, rfl⟩ hne ⟨timer', htimer', hservice⟩
    cases htimer.symm.trans htimer'
    exact hne hservice
  cases h with
  | kept htimers hctrl => exact ⟨hctrl n, fun t => mem_armed_of_timers_eq htimers⟩
  | @create n' op =>
    have hn : n ≠ n' := by
      rintro rfl
      exact hmonitor op (mem_singleton_self _)
    exact ⟨congrArg ServiceEntry.idleCtrl (Function.update_of_ne hn _ _),
      fun t => mem_armed_create rfl⟩
  | @arm n' op t' =>
    have hn : n' ≠ n := by
      rintro rfl
      exact hheld _ (mem_singleton_self _) t' rfl
    refine ⟨rfl, fun t => ?_⟩
    rw [mem_armed_arm (howned _ (mem_singleton_self _) n' t' rfl) rfl]
    simp [hn]
  | @quiet n' idle found t' =>
    have hn : n' ≠ n := by
      rintro rfl
      exact hheld _ (mem_singleton_self _) t' rfl
    refine ⟨rfl, fun t => ?_⟩
    rw [mem_armed_stop rfl]
    exact hstop (hone (howned _ (mem_singleton_self _) n' t' rfl) hn) t
  | @fire t' timer htimer =>
    refine ⟨rfl, fun t => ?_⟩
    rw [mem_armed_stop (set_timer_eq_modify htimer)]
    exact hstop (hfire t' (mem_singleton_self _)) t

end Containers.Lifecycle
