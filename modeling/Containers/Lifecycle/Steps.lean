import Containers.Lib.Sections
import Containers.Lifecycle.Manager

/-!
# What the operations of the lifecycle manager can do

What is proved of the manager is proved over the steps of its threads, and a step is looked into
once, here. `Turn` is a step as the stack of its thread sees it; `StartStep` lists what a `Start`
can do, and `TurnStep` what any step is. What the other operations leave alone is said by
footprints: `Keeps` for the leases and the booters of lazy services, `Aside` for the boots and
stops, and `Untimed` for the timers.

`Reached` are the states that are reached by runs whose steps all meet a condition; its invariant
rules close the module.
-/

namespace Containers.Lifecycle

open List Function

variable {m' m : Memory} {made : List Frame} {n : String} {s s₀ : State}

/-! ### What a step can do -/

variable {M : DefaultManager} {m : Memory} {o : Option String}
  {I : Memory → List (List Frame) → Prop} {p : StartPoint} {st : List Frame} {c : Call}

/-- **What a step does to a stack**: the frames it takes from the top, the memory it leaves,
and the frames it puts in their place. -/
inductive Turn (M : DefaultManager) (m : Memory) (o : Option String) :
    List Frame → Memory → List Frame → Prop
  | step {f : Frame} {m' : Memory} {made : List Frame}
      (h : f.step M m o = some (m', made)) : Turn M m o [f] m' made
  | resume {err : Option String} {f : Frame} {m' : Memory} {made : List Frame}
      (h : f.resume m err = some (m', made)) : Turn M m o [.ret err, f] m' made
  | leave {err : Option String} : Turn M m o [.ret err] m []

theorem turn_of_threadStep {st' : List Frame} (h : threadStep M m o st = some (m', st')) :
    ∃ used made rest, st = used ++ rest ∧ st' = made ++ rest ∧ Turn M m o used m' made := by
  have hstep : ∀ {f : Frame} {rest : List Frame},
      ((f.step M m o).map fun r => (r.1, r.2 ++ rest)) = some (m', st') →
        ∃ used made rest', f :: rest = used ++ rest' ∧ st' = made ++ rest' ∧
          Turn M m o used m' made := by
    intro f rest h
    obtain ⟨⟨m₁, made⟩, hr, hr'⟩ := Option.map_eq_some_iff.mp h
    cases hr'
    exact ⟨[f], made, rest, rfl, rfl, .step hr⟩
  cases st with
  | nil => cases h
  | cons f rest =>
    cases f with
    | ret err =>
      cases rest with
      | nil =>
        cases h
        exact ⟨[.ret err], [], [], rfl, rfl, .leave⟩
      | cons f rest =>
        obtain ⟨⟨m₁, made⟩, hr, hr'⟩ := Option.map_eq_some_iff.mp h
        cases hr'
        exact ⟨[.ret err, f], made, rest, rfl, rfl, .resume hr⟩
    | start | stop | acquire | release | fire | shutdown => exact hstep h

theorem threadStep_of_step {f : Frame} (h : f.step M m o = some (m', made)) (rest : List Frame) :
    threadStep M m o (f :: rest) = some (m', made ++ rest) := by
  cases f with
  | ret => cases h
  | start | stop | acquire | release | fire | shutdown =>
    exact congrArg (Option.map fun r => (r.1, r.2 ++ rest)) h

/-- **What a `Start` can do in a step.** -/
inductive StartStep (M : DefaultManager) (m : Memory) (o : Option String) (n : String) :
    StartPoint → Memory → List Frame → Prop
  | missing (hspec : M.services.lookup n = none) {err : String} :
      StartStep M m o n .enter m [.ret (some err)]
  | already {spec : ServiceSpec} (hspec : M.services.lookup n = some spec)
      (hstate : (m.entry n).state = .running) : StartStep M m o n .enter m [.ret none]
  /-- It finds a boot under way that nobody leads. -/
  | orphaned {spec : ServiceSpec} (hspec : M.services.lookup n = some spec)
      (hstate : (m.entry n).state = .starting) (hop : (m.entry n).startOp = none) :
      StartStep M m o n .enter m [.ret none]
  | follow {spec : ServiceSpec} {op : ℕ} (hspec : M.services.lookup n = some spec)
      (hstate : (m.entry n).state = .starting) (hop : (m.entry n).startOp = some op) :
      StartStep M m o n .enter m [.start n (.wait op)]
  | lead {spec : ServiceSpec} (hspec : M.services.lookup n = some spec)
      (hstate : (m.entry n).state = .stopped ∨ (m.entry n).state = .stopping) :
      StartStep M m o n .enter (m.lead n) [.start n (.deps m.nextOp spec.dependencies)]
  | told {op : ℕ} (hdone : (m.startOp op).done = true) :
      StartStep M m o n (.wait op) m [.ret (m.startOp op).err]
  | ready {op : ℕ} : StartStep M m o n (.deps op []) m [.start n (.up op)]
  | call {op : ℕ} {dep : String} {rest : List String} :
      StartStep M m o n (.deps op (dep :: rest)) m
        [.start dep .enter, .start n (.awaitDep op dep rest)]
  | up {op : ℕ} (hup : M.Composes n) :
      StartStep M m o n (.up op) (m.note n (.up op)) [.start n (.check op)]
  | noUp {op : ℕ} (hup : ¬M.Composes n) : StartStep M m o n (.up op) m [.start n (.check op)]
  | upFailed {op : ℕ} {err : String} : StartStep M m o n (.up op) m [.start n (.fail op err)]
  | check {op : ℕ} :
      StartStep M m o n (.check op) (if o.isNone then m.note n (.healthy op) else m)
        [.start n (.health op o)]
  | noCheck {op : ℕ} (hcheck : M.checker = false) :
      StartStep M m o n (.check op) m [.start n (.commit op)]
  | healthy {op : ℕ} :
      StartStep M m o n (.health op none) (m.modify n fun e => { e with healthy := true })
        [.start n (.commit op)]
  | unhealthy {op : ℕ} {err err' : String} :
      StartStep M m o n (.health op (some err)) (m.modify n fun e => { e with healthy := false })
        [.start n (.fail op err')]
  | fail {op : ℕ} {err : String} :
      StartStep M m o n (.fail op err) (m.setState n .stopped) [.start n (.finish op (some err))]
  /-- The boot is still its own. -/
  | own {op : ℕ} (hop : (m.entry n).startOp = some op) (hstate : (m.entry n).state = .starting) :
      StartStep M m o n (.commit op) (m.setState n .running) [.start n (.monitor op)]
  | cancelled {op : ℕ} {err : String} (hop : (m.entry n).startOp = some op)
      (hstate : (m.entry n).state ≠ .starting) :
      StartStep M m o n (.commit op)
        (m.modify n fun e => { e with state := .stopped, healthy := false })
        [.start n (.finish op (some err))]
  | superseded {op : ℕ} {err : String} (hop : (m.entry n).startOp ≠ some op) :
      StartStep M m o n (.commit op) m [.start n (.finish op (some err))]
  | monitor {op : ℕ} :
      StartStep M m o n (.monitor op)
        { m.modify n fun e => { e with idleCtrl := some m.timers.length } with
          timers := m.timers ++ [{ service := n }] } [.start n (.arm op m.timers.length)]
  | noMonitor {op : ℕ} : StartStep M m o n (.monitor op) m [.start n (.finish op none)]
  | arm {op timer : ℕ} :
      StartStep M m o n (.arm op timer)
        { m with timers := m.timers.modify timer fun t =>
          { t with armed := true, stopped := false } }
        [.start n (.finish op none)]
  | finish {op : ℕ} {err : Option String} :
      StartStep M m o n (.finish op err) (m.settle op err) [.ret err]

theorem startStep_cases (h : startStep M m o n p = some (m', made)) :
    StartStep M m o n p m' made := by
  cases p with
  | enter =>
    cases hs : M.services.lookup n with
    | none =>
      rw [startStep, hs] at h
      cases h
      exact .missing hs
    | some spec =>
      cases hstate : (m.entry n).state <;> simp only [startStep, hs, hstate] at h
      · cases h
        exact .lead hs (.inl hstate)
      · cases hop : (m.entry n).startOp <;> rw [hop] at h <;> cases h
        · exact .orphaned hs hstate hop
        · exact .follow hs hstate hop
      · cases h
        exact .already hs hstate
      · cases h
        exact .lead hs (.inr hstate)
  | wait op =>
    rw [startStep] at h
    split_ifs at h with hdone
    cases h
    exact .told hdone
  | deps op rest =>
    cases rest <;> cases h
    · exact .ready
    · exact .call
  | awaitDep => cases h
  | up op =>
    simp only [startStep] at h
    split_ifs at h with hup
    · cases o <;> cases h
      · exact .up hup
      · exact .upFailed
    · cases h
      exact .noUp hup
  | check op =>
    by_cases hcheck : M.checker
    · rw [startStep, if_pos hcheck] at h
      cases h
      exact .check
    · rw [startStep, if_neg hcheck] at h
      cases h
      exact .noCheck (by simpa using hcheck)
  | health op err =>
    cases err <;> cases h
    · exact .healthy
    · exact .unhealthy
  | fail op err =>
    cases h
    exact .fail
  | commit op =>
    cases h
    rw [Memory.commit]
    by_cases hop : (m.entry n).startOp = some op
    · by_cases hstate : (m.entry n).state = .starting
      · rw [if_pos hop, if_pos hstate, if_pos ⟨hop, hstate⟩]
        exact .own hop hstate
      · rw [if_pos hop, if_neg hstate, if_neg fun h => hstate h.2]
        exact .cancelled hop hstate
    · rw [if_neg hop, if_neg fun h => hop h.1]
      exact .superseded hop
  | monitor op =>
    rw [startStep] at h
    split_ifs at h <;> cases h
    · exact .monitor
    · exact .noMonitor
  | arm op timer =>
    cases h
    exact .arm
  | finish op err =>
    cases h
    exact .finish

theorem exists_of_call (h : call m c = some st) : ∃ f, st = [f] ∧ call m c = some [f] := by
  cases c with
  | start n | stop n | acquire n | shutdown names =>
    cases h
    exact ⟨_, rfl, rfl⟩
  | release l | expire t =>
    obtain ⟨hc, h⟩ := Option.ite_none_right_eq_some.mp h
    cases h
    exact ⟨_, rfl, if_pos hc⟩

/-- **What a call starts**: an operation, at its beginning. -/
inductive Opening : Frame → Prop
  | start {n : String} : Opening (.start n .enter)
  | stop {n : String} : Opening (.stop n false .enter)
  | acquire {n : String} : Opening (.acquire n .enter)
  | release {l : ℕ} : Opening (.release l .enter)
  | fire {t : ℕ} : Opening (.fire t)
  | shutdown {names : List String} : Opening (.shutdown names none)

theorem opening_of_call {f : Frame} (h : call m c = some [f]) : Opening f := by
  cases c with
  | start | stop | acquire | shutdown =>
    cases h
    constructor
  | release | expire =>
    obtain ⟨-, h⟩ := Option.ite_none_right_eq_some.mp h
    cases h
    constructor

/-! ### What an operation leaves alone -/

/-- The leases are as they were, and all that is counted of them. -/
structure Unleased (m m' : Memory) : Prop where
  leases : m'.leases = m.leases
  activeLeases : ∀ n, (m'.entry n).activeLeases = (m.entry n).activeLeases
  taken : ∀ n, (m'.entry n).taken = (m.entry n).taken

theorem Unleased.refl : Unleased m m := ⟨rfl, fun _ => rfl, fun _ => rfl⟩

/-- The booters of lazy services are as they were, except that a service may have lost its
booter. -/
structure Unbooted (m m' : Memory) : Prop where
  booter : m'.booter = m.booter
  nextBooter : m'.nextBooter = m.nextBooter
  lazyBooter : ∀ n b, (m'.entry n).lazyBooter = some b → (m.entry n).lazyBooter = some b

theorem Unbooted.refl : Unbooted m m := ⟨rfl, rfl, fun _ _ => id⟩

/-- The leases and the booters are left alone. -/
structure Keeps (m m' : Memory) : Prop extends Unleased m m', Unbooted m m'

theorem keeps_of_entry_eq (hleases : m'.leases = m.leases) (hbooter : m'.booter = m.booter)
    (hnext : m'.nextBooter = m.nextBooter) (hentry : m'.entry = m.entry) : Keeps m m' :=
  ⟨⟨hleases, fun _ => by rw [hentry], fun _ => by rw [hentry]⟩,
    ⟨hbooter, hnext, fun n b hb => by rwa [hentry] at hb⟩⟩

theorem Keeps.refl : Keeps m m := ⟨.refl, .refl⟩

section Write

variable {f : ServiceEntry → ServiceEntry}
  (hentry : m'.entry = update m.entry n (f (m.entry n)))

include hentry

theorem entry_field {α : Type} {field : ServiceEntry → α} (hf : ∀ e, field (f e) = field e)
    (n' : String) : field (m'.entry n') = field (m.entry n') := by
  rw [hentry, update_apply]
  split_ifs with hn
  · rw [hf, hn]
  · rfl

theorem unbooted_of_entry (hbooter : m'.booter = m.booter) (hnext : m'.nextBooter = m.nextBooter)
    (hf : ∀ e b, (f e).lazyBooter = some b → e.lazyBooter = some b) : Unbooted m m' := by
  refine ⟨hbooter, hnext, fun n' b hb => ?_⟩
  rw [hentry, update_apply] at hb
  split_ifs at hb with hn
  · rw [hn]
    exact hf _ b hb
  · exact hb

theorem keeps_of_entry (hleases : m'.leases = m.leases) (hbooter : m'.booter = m.booter)
    (hnext : m'.nextBooter = m.nextBooter)
    (hf : ∀ e, (f e).activeLeases = e.activeLeases ∧ (f e).taken = e.taken ∧
      ∀ b, (f e).lazyBooter = some b → e.lazyBooter = some b) : Keeps m m' :=
  ⟨⟨hleases, entry_field hentry fun e => (hf e).1, entry_field hentry fun e => (hf e).2.1⟩,
    unbooted_of_entry hentry hbooter hnext fun e => (hf e).2.2⟩

end Write

theorem keeps_modify {f : ServiceEntry → ServiceEntry} (hf : ∀ e,
    (f e).activeLeases = e.activeLeases ∧ (f e).taken = e.taken ∧
      ∀ b, (f e).lazyBooter = some b → e.lazyBooter = some b) : Keeps m (m.modify n f) :=
  keeps_of_entry rfl rfl rfl rfl hf

/-- **A `Start` leaves the leases and the booters alone.** -/
theorem keeps_of_startStep (h : startStep M m o n p = some (m', made)) : Keeps m m' := by
  cases startStep_cases h with
  | lead =>
    exact keeps_of_entry (f := fun e => { e with state := .starting, startOp := some m.nextOp })
      rfl rfl rfl rfl fun _ => ⟨rfl, rfl, fun _ => id⟩
  | check => split_ifs <;> exact keeps_of_entry_eq rfl rfl rfl rfl
  | healthy | unhealthy | fail | own | cancelled =>
      exact keeps_modify fun _ => ⟨rfl, rfl, fun _ => id⟩
  | monitor =>
    exact keeps_of_entry (f := fun e => { e with idleCtrl := some m.timers.length })
      rfl rfl rfl rfl fun _ => ⟨rfl, rfl, fun _ => id⟩
  | _ => exact keeps_of_entry_eq rfl rfl rfl rfl

/-- **A `Stop` leaves the leases alone**, and the booters but for the one it takes away; it goes
on as a `Stop` until it returns. -/
theorem keeps_of_stopStep {idle : Bool} {p : StopPoint}
    (h : stopStep M m o n idle p = some (m', made)) :
    Keeps m m' ∧ ((∃ p', made = [.stop n idle p']) ∨ ∃ err, made = [.ret err]) := by
  cases p with
  | enter =>
    rw [stopStep] at h
    split_ifs at h <;> cases h
    · exact ⟨.refl, .inr ⟨_, rfl⟩⟩
    · exact ⟨keeps_modify fun _ => ⟨rfl, rfl, fun _ => id⟩, .inl ⟨_, rfl⟩⟩
    · exact ⟨.refl, .inr ⟨_, rfl⟩⟩
  | quiet found timer =>
    cases h
    cases timer <;> exact ⟨keeps_of_entry_eq rfl rfl rfl rfl, .inl ⟨_, rfl⟩⟩
  | down found =>
    cases h
    exact ⟨.refl, .inl ⟨_, rfl⟩⟩
  | downing found =>
    cases h
    refine ⟨?_, .inl ⟨_, rfl⟩⟩
    split_ifs <;> exact keeps_of_entry_eq rfl rfl rfl rfl
  | write found err =>
    cases err <;> cases h
    · exact ⟨keeps_modify fun _ => ⟨rfl, rfl, fun _ hb => by cases hb⟩, .inr ⟨_, rfl⟩⟩
    · exact ⟨keeps_modify fun _ => ⟨rfl, rfl, fun _ => id⟩, .inr ⟨_, rfl⟩⟩

/-- No boot and no stop is touched: the states of the services, the handles and the log are as
they were. -/
structure Aside (m m' : Memory) : Prop where
  ops : m'.startOp = m.startOp
  nextOp : m'.nextOp = m.nextOp
  log : m'.log = m.log
  state : ∀ n, (m'.entry n).state = (m.entry n).state
  startOp : ∀ n, (m'.entry n).startOp = (m.entry n).startOp

/-- The timers are as they were, and so is the timer of each service. -/
structure Untimed (m m' : Memory) : Prop where
  timers : m'.timers = m.timers
  idleCtrl : ∀ n, (m'.entry n).idleCtrl = (m.entry n).idleCtrl

theorem Untimed.refl : Untimed m m := ⟨rfl, fun _ => rfl⟩

/-- The boots, the stops and the timers are left alone. -/
structure Beside (m m' : Memory) : Prop extends Aside m m', Untimed m m'

theorem beside_of_entry_eq (hops : m'.startOp = m.startOp) (hnext : m'.nextOp = m.nextOp)
    (hlog : m'.log = m.log) (htimers : m'.timers = m.timers) (hentry : m'.entry = m.entry) :
    Beside m m' :=
  ⟨⟨hops, hnext, hlog, fun _ => by rw [hentry], fun _ => by rw [hentry]⟩,
    ⟨htimers, fun _ => by rw [hentry]⟩⟩

theorem Beside.refl : Beside m m := beside_of_entry_eq rfl rfl rfl rfl rfl

theorem beside_of_entry (hops : m'.startOp = m.startOp) (hnext : m'.nextOp = m.nextOp)
    (hlog : m'.log = m.log) (htimers : m'.timers = m.timers) {f : ServiceEntry → ServiceEntry}
    (hentry : m'.entry = update m.entry n (f (m.entry n)))
    (hf : ∀ e, (f e).state = e.state ∧ (f e).startOp = e.startOp ∧ (f e).idleCtrl = e.idleCtrl) :
    Beside m m' :=
  ⟨⟨hops, hnext, hlog, entry_field hentry fun e => (hf e).1,
    entry_field hentry fun e => (hf e).2.1⟩, ⟨htimers, entry_field hentry fun e => (hf e).2.2⟩⟩

/-- **An `Acquire` touches no boot and no timer**, and goes on as an `Acquire` until it returns,
but that it may call `Start`; the leases are as they were until it is granted one. -/
theorem beside_of_acquireStep {p : AcquirePoint} (h : acquireStep M m o n p = some (m', made)) :
    Beside m m' ∧ (p = .grant ∨ m'.leases = m.leases) ∧
      ((∃ p', made = [.acquire n p']) ∨
        (∃ b, p = .ensure b ∧
          made = [.start (m.booter b).service .enter, .acquire n (.booting b)]) ∨
        ∃ err, made = [.ret err]) := by
  have hmodify : ∀ {f : ServiceEntry → ServiceEntry}, (∀ e, (f e).state = e.state ∧
      (f e).startOp = e.startOp ∧ (f e).idleCtrl = e.idleCtrl) → Beside m (m.modify n f) :=
    fun hf => beside_of_entry rfl rfl rfl rfl rfl hf
  cases p with
  | enter =>
    cases hs : M.services.lookup n <;> rw [acquireStep, hs] at h <;> cases h
    · exact ⟨.refl, .inr rfl, .inr (.inr ⟨_, rfl⟩)⟩
    · exact ⟨.refl, .inr rfl, .inl ⟨_, rfl⟩⟩
  | lazy =>
    cases hb : (m.entry n).lazyBooter <;> rw [acquireStep, hb] at h <;> cases h
    · exact ⟨beside_of_entry (f := fun e => { e with lazyBooter := some m.nextBooter })
        rfl rfl rfl rfl rfl fun _ => ⟨rfl, rfl, rfl⟩, .inr rfl, .inl ⟨_, rfl⟩⟩
    · exact ⟨.refl, .inr rfl, .inl ⟨_, rfl⟩⟩
  | ensure b =>
    cases hb : (m.booter b).started <;> simp only [acquireStep, hb] at h <;> cases h
    · exact ⟨beside_of_entry_eq rfl rfl rfl rfl rfl, .inr rfl, .inr (.inl ⟨b, rfl, rfl⟩)⟩
    · exact ⟨.refl, .inr rfl, .inl ⟨_, rfl⟩⟩
  | booting b => cases h
  | bootFailed b err =>
    cases h
    split_ifs
    · exact ⟨hmodify fun _ => ⟨rfl, rfl, rfl⟩, .inr rfl, .inr (.inr ⟨_, rfl⟩)⟩
    · exact ⟨.refl, .inr rfl, .inr (.inr ⟨_, rfl⟩)⟩
  | gate =>
    rw [acquireStep] at h
    split_ifs at h <;> cases h
    · exact ⟨hmodify fun _ => ⟨rfl, rfl, rfl⟩, .inr rfl, .inl ⟨_, rfl⟩⟩
    · exact ⟨.refl, .inr rfl, .inr (.inr ⟨_, rfl⟩)⟩
  | slot =>
    rw [acquireStep] at h
    split_ifs at h
    · cases h
      exact ⟨.refl, .inr rfl, .inl ⟨_, rfl⟩⟩
    all_goals cases o <;> cases h
    · exact ⟨hmodify fun _ => ⟨rfl, rfl, rfl⟩, .inr rfl, .inl ⟨_, rfl⟩⟩
    · exact ⟨.refl, .inr rfl, .inl ⟨_, rfl⟩⟩
    · exact ⟨.refl, .inr rfl, .inl ⟨_, rfl⟩⟩
  | recheck | readIdle | touch _ =>
    cases h
    exact ⟨.refl, .inr rfl, .inl ⟨_, rfl⟩⟩
  | unslot =>
    cases h
    exact ⟨hmodify fun _ => ⟨rfl, rfl, rfl⟩, .inr rfl, .inl ⟨_, rfl⟩⟩
  | uncount err =>
    cases h
    exact ⟨hmodify fun _ => ⟨rfl, rfl, rfl⟩, .inr rfl, .inr (.inr ⟨_, rfl⟩)⟩
  | grant =>
    cases h
    exact ⟨beside_of_entry_eq rfl rfl rfl rfl rfl, .inl rfl, .inr (.inr ⟨_, rfl⟩)⟩

/-- **A release touches no boot, no timer and no booter**; it goes on as a release until it
returns. -/
theorem beside_of_releaseStep {l : ℕ} {lease : Lease} {p : ReleasePoint}
    (h : releaseStep m l lease p = some (m', made)) :
    Beside m m' ∧ Unbooted m m' ∧ ((∃ p', made = [.release l p']) ∨ ∃ err, made = [.ret err]) := by
  have hsame : ∀ leases, Beside m { m with leases := leases } := fun _ =>
    beside_of_entry_eq rfl rfl rfl rfl rfl
  cases p with
  | enter =>
    cases hstage : lease.stage <;> simp only [releaseStep, hstage] at h <;> cases h
    · exact ⟨hsame _, ⟨rfl, rfl, fun _ _ => id⟩, .inl ⟨_, rfl⟩⟩
    · exact ⟨.refl, .refl, .inr ⟨_, rfl⟩⟩
  | slot =>
    cases h
    let count : ServiceEntry → ServiceEntry := fun e => { e with taken := e.taken - 1 }
    exact ⟨beside_of_entry (f := count) rfl rfl rfl rfl rfl fun _ => ⟨rfl, rfl, rfl⟩,
      unbooted_of_entry (f := count) rfl rfl rfl fun _ _ => id, .inl ⟨_, rfl⟩⟩
  | uncount =>
    cases h
    let count : ServiceEntry → ServiceEntry :=
      fun e => { e with activeLeases := e.activeLeases - 1 }
    exact ⟨beside_of_entry (f := count) rfl rfl rfl rfl rfl fun _ => ⟨rfl, rfl, rfl⟩,
      unbooted_of_entry (f := count) rfl rfl rfl fun _ _ => id, .inl ⟨_, rfl⟩⟩
  | readIdle =>
    cases h
    exact ⟨.refl, .refl, .inl ⟨_, rfl⟩⟩
  | touch timer =>
    cases h
    exact ⟨hsame _, ⟨rfl, rfl, fun _ _ => id⟩, .inr ⟨_, rfl⟩⟩

theorem keeps_of_fireStep {t : ℕ} {timer : IdleShutdown}
    (h : fireStep m o t timer = some (m', made)) :
    Keeps m m' ∧ Aside m m' ∧
      (made = [.stop timer.service true .enter] ∨ ∃ err, made = [.ret err]) := by
  rw [fireStep] at h
  split_ifs at h <;> cases h
  · exact ⟨.refl, Beside.refl.toAside, .inr ⟨none, rfl⟩⟩
  · exact ⟨keeps_of_entry_eq rfl rfl rfl rfl, ⟨rfl, rfl, rfl, fun _ => rfl, fun _ => rfl⟩, .inl rfl⟩

theorem entry_of_startStep_of_ne {n' : String} (hn : n' ≠ n)
    (h : startStep M m o n' p = some (m', made)) : m'.entry n = m.entry n := by
  cases startStep_cases h with
  | lead | healthy | unhealthy | fail | own | cancelled | monitor =>
    exact update_of_ne hn.symm _ _
  | check => split_ifs <;> rfl
  | _ => rfl

/-- **What a step is**: the frames it takes, the memory it leaves and the frames it makes, case by
case. -/
inductive TurnStep (M : DefaultManager) (m : Memory) (o : Option String) :
    List Frame → Memory → List Frame → Prop
  | start {n : String} {p p' : StartPoint} {m' : Memory}
      (h : startStep M m o n p = some (m', [.start n p'])) :
      TurnStep M m o [.start n p] m' [.start n p']
  | startCall {n dep : String} {op : ℕ} {rest : List String} :
      TurnStep M m o [.start n (.deps op (dep :: rest))] m
        [.start dep .enter, .start n (.awaitDep op dep rest)]
  | startRet {n : String} {p : StartPoint} {m' : Memory} {err : Option String}
      (h : startStep M m o n p = some (m', [.ret err])) : TurnStep M m o [.start n p] m' [.ret err]
  | stop {n : String} {idle : Bool} {p p' : StopPoint} {m' : Memory}
      (h : stopStep M m o n idle p = some (m', [.stop n idle p'])) :
      TurnStep M m o [.stop n idle p] m' [.stop n idle p']
  | stopRet {n : String} {idle : Bool} {p : StopPoint} {m' : Memory} {err : Option String}
      (h : stopStep M m o n idle p = some (m', [.ret err])) :
      TurnStep M m o [.stop n idle p] m' [.ret err]
  | acquire {n : String} {p p' : AcquirePoint} {m' : Memory}
      (h : acquireStep M m o n p = some (m', [.acquire n p'])) :
      TurnStep M m o [.acquire n p] m' [.acquire n p']
  | acquireCall {n : String} {b : ℕ} {m' : Memory} (h : acquireStep M m o n (.ensure b) =
        some (m', [.start (m.booter b).service .enter, .acquire n (.booting b)])) :
      TurnStep M m o [.acquire n (.ensure b)] m'
        [.start (m.booter b).service .enter, .acquire n (.booting b)]
  | acquireRet {n : String} {p : AcquirePoint} {m' : Memory} {err : Option String}
      (h : acquireStep M m o n p = some (m', [.ret err])) :
      TurnStep M m o [.acquire n p] m' [.ret err]
  | release {l : ℕ} {lease : Lease} {p p' : ReleasePoint} {m' : Memory}
      (hlease : m.leases[l]? = some lease)
      (h : releaseStep m l lease p = some (m', [.release l p'])) :
      TurnStep M m o [.release l p] m' [.release l p']
  | releaseRet {l : ℕ} {lease : Lease} {p : ReleasePoint} {m' : Memory} {err : Option String}
      (hlease : m.leases[l]? = some lease) (h : releaseStep m l lease p = some (m', [.ret err])) :
      TurnStep M m o [.release l p] m' [.ret err]
  | fire {t : ℕ} {timer : IdleShutdown} {m' : Memory} (htimer : m.timers[t]? = some timer)
      (h : fireStep m o t timer = some (m', [.stop timer.service true .enter])) :
      TurnStep M m o [.fire t] m' [.stop timer.service true .enter]
  | fireRet {t : ℕ} {timer : IdleShutdown} {m' : Memory} {err : Option String}
      (htimer : m.timers[t]? = some timer) (h : fireStep m o t timer = some (m', [.ret err])) :
      TurnStep M m o [.fire t] m' [.ret err]
  | shutdown {n : String} {rest : List String} {firstErr : Option String} :
      TurnStep M m o [.shutdown (n :: rest) firstErr] m
        [.stop n false .enter, .shutdown rest firstErr]
  | shutdownRet {firstErr : Option String} :
      TurnStep M m o [.shutdown [] firstErr] m [.ret firstErr]
  /-- The `Start` of a dependency returns. -/
  | depRet {err : Option String} {n dep : String} {op : ℕ} {rest : List String} {p : StartPoint}
      (hp : (err = none ∧ p = .deps op rest) ∨ ∃ text, p = .fail op text) :
      TurnStep M m o [.ret err, .start n (.awaitDep op dep rest)] m [.start n p]
  /-- The `Start` of a booter returns. -/
  | bootRet {err : Option String} {n : String} {b : ℕ} {p : AcquirePoint}
      (hp : (err = none ∧ p = .gate) ∨ ∃ text, err = some text ∧ p = .bootFailed b text) :
      TurnStep M m o [.ret err, .acquire n (.booting b)]
        (m.setBooter b { m.booter b with started := .started, err := err }) [.acquire n p]
  /-- A `Stop` of a `Shutdown` returns. -/
  | nextStop {err firstErr : Option String} {rest : List String} :
      TurnStep M m o [.ret err, .shutdown rest firstErr] m [.shutdown rest (firstErr.or err)]
  | leave {err : Option String} : TurnStep M m o [.ret err] m []

theorem turnStep_of_turn {used : List Frame} (h : Turn M m o used m' made) :
    TurnStep M m o used m' made := by
  cases h with
  | @step f m' made hstep =>
    cases f with
    | start n p =>
      cases startStep_cases hstep with
      | missing | already | orphaned | told | finish => exact .startRet hstep
      | call => exact .startCall
      | _ => exact .start hstep
    | stop n idle p =>
      obtain ⟨-, ⟨p', rfl⟩ | ⟨err, rfl⟩⟩ := keeps_of_stopStep hstep
      · exact .stop hstep
      · exact .stopRet hstep
    | acquire n p =>
      obtain ⟨-, -, ⟨p', rfl⟩ | ⟨b, rfl, rfl⟩ | ⟨err, rfl⟩⟩ := beside_of_acquireStep hstep
      · exact .acquire hstep
      · exact .acquireCall hstep
      · exact .acquireRet hstep
    | release l p =>
      obtain ⟨lease, hlease, hstep⟩ := Option.bind_eq_some_iff.mp hstep
      obtain ⟨-, -, ⟨p', rfl⟩ | ⟨err, rfl⟩⟩ := beside_of_releaseStep hstep
      · exact .release hlease hstep
      · exact .releaseRet hlease hstep
    | fire t =>
      obtain ⟨timer, htimer, hstep⟩ := Option.bind_eq_some_iff.mp hstep
      obtain ⟨-, -, rfl | ⟨err, rfl⟩⟩ := keeps_of_fireStep hstep
      · exact .fire htimer hstep
      · exact .fireRet htimer hstep
    | shutdown rest firstErr =>
      cases rest <;> cases hstep
      · exact .shutdownRet
      · exact .shutdown
    | ret err => cases hstep
  | @resume err f m' made hresume =>
    cases f with
    | start n p =>
      cases p with
      | awaitDep op dep rest =>
        cases hresume
        refine .depRet ?_
        cases err with
        | none => exact .inl ⟨rfl, rfl⟩
        | some text => exact .inr ⟨_, rfl⟩
      | _ => cases hresume
    | acquire n p =>
      cases p with
      | booting b =>
        cases hresume
        refine .bootRet ?_
        cases err with
        | none => exact .inl ⟨rfl, rfl⟩
        | some text => exact .inr ⟨text, rfl, rfl⟩
      | _ => cases hresume
    | shutdown rest firstErr =>
      cases hresume
      exact .nextStop
    | _ => cases hresume
  | leave => exact .leave

/-! ### Runs -/

/-- A condition on the steps of a run: on the memory, the frames of all threads, the frame
that makes the step, and the outcome it is given. -/
abbrev Condition := Memory → List Frame → Frame → Option String → Prop

variable {C : Condition}

/-- The actions that meet a condition: calls may be made at any time. -/
def Meeting (C : Condition) (s : State) : Action → Prop
  | .call _ => True
  | .step i o => ∀ f ∈ s.top (.step i o : Action), C s.memory s.frames f o

instance (C : Condition) [∀ m F f o, Decidable (C m F f o)] (s : State) (a : Action) :
    Decidable (Meeting C s a) :=
  match a with
  | .call _ => .isTrue trivial
  | .step i o => inferInstanceAs (Decidable (∀ f ∈ s.top (.step i o : Action), _))

abbrev Anyhow : Condition := fun _ _ _ _ => True

/-- The states that are reached when every step meets a condition. -/
abbrev Reached (M : DefaultManager) (C : Condition) : State → Prop :=
  (system M).Reach (Meeting C) initial

/-- **The invariant rule, for the stacks**: a call adds a stack of one frame, and a step
replaces the top of one stack. -/
theorem reach_induction {K : State → Action → Prop} (hinit : I s₀.memory s₀.threads)
    (hcall : ∀ m T c f, I m T → K ⟨m, T⟩ (.call c) → call m c = some [f] → I m (T ++ [[f]]))
    (hturn : ∀ m T T' used rest o m' made, I m (T ++ (used ++ rest) :: T') →
      K ⟨m, T ++ (used ++ rest) :: T'⟩ (.step T.length o) →
      Turn M m o used m' made → I m' (T ++ (made ++ rest) :: T')) (h : (system M).Reach K s₀ s) :
    I s.memory s.threads := by
  refine h.invariant (I := fun s => I s.memory s.threads) hinit ?_
  intro s a s' hs hK hnext
  cases a with
  | call c =>
    obtain ⟨st, hst, rfl⟩ := ThreadSystem.next_call hnext
    obtain ⟨f, rfl, hf⟩ := exists_of_call hst
    exact hcall _ _ _ _ hs hK hf
  | step i o =>
    obtain ⟨T, st, T', m', st', hT, rfl, hstep, rfl⟩ := ThreadSystem.next_step hnext
    obtain ⟨used, made, rest, rfl, rfl, hturned⟩ := turn_of_threadStep hstep
    obtain ⟨m, threads⟩ := s
    subst hT
    exact hturn _ _ _ _ _ _ _ _ hs hK hturned

theorem meeting_induction (h : (system M).Reach (Meeting C) s₀ s) (hinit : I s₀.memory s₀.threads)
    (hcall : ∀ m T c f, I m T → call m c = some [f] → I m (T ++ [[f]]))
    (hturn : ∀ m T T' used rest o m' made, I m (T ++ (used ++ rest) :: T') →
      (∀ f ∈ used.head?, C m (T ++ (used ++ rest) :: T').flatten f o) →
      Turn M m o used m' made → I m' (T ++ (made ++ rest) :: T')) : I s.memory s.threads := by
  refine reach_induction hinit (fun m T c f hI _ hc => hcall m T c f hI hc) ?_ h
  intro m T T' used rest o m' made hI hK hturned
  refine hturn m T T' used rest o m' made hI (fun f hf => hK f ?_) hturned
  rw [ThreadSystem.top_step]
  cases used with
  | nil => cases hf
  | cons g used => exact hf

/-- **The invariant rule, for the frames**, where it does not matter which thread a frame
belongs to. -/
theorem frames_induction (h : (system M).Reach (Meeting C) s₀ s) {I : Memory → List Frame → Prop}
    (hinit : I s₀.memory s₀.frames)
    (hcall : ∀ m F c f, I m F → call m c = some [f] → I m (F ++ [f]))
    (hturn : ∀ m A B used o m' made, I m (A ++ (used ++ B)) →
      (∀ f ∈ used.head?, C m (A ++ (used ++ B)) f o) →
      Turn M m o used m' made → I m' (A ++ (made ++ B))) : I s.memory s.frames := by
  refine meeting_induction h (I := fun m T => I m T.flatten) hinit ?_ ?_
  · intro m T c f hI hc
    rw [flatten_append]
    exact hcall m _ c f hI hc
  · intro m T T' used rest o m' made
    simp only [flatten_append, flatten_cons, append_assoc]
    exact hturn m _ _ used o m' made

/-! ### Runs of one service -/

def oneService (spec : ServiceSpec) : DefaultManager :=
  { services := Go.GoMap.ofList [(spec.name, spec)] }

def db : ServiceSpec := { name := "db", composeFile := "db.yml" }

abbrev steps (i k : ℕ) : List Action := List.replicate k (.step i none)

end Containers.Lifecycle
