import Containers.Lib.Layers
import Containers.Lifecycle.Dependencies

/-!
# `Start`s that wait for each other

A `Start` that finds a boot of the same service under way waits until that boot is over, and so do,
with it, the boots further down in its call stack. So a `Start` can come to wait for a boot that is
led in its own stack, or for one whose leader waits for it. `Register` looks at no dependencies, and
the result of the module is that `Start`s can deadlock exactly when some service needs itself,
through others or directly (`deadlock_free_iff`).

* Without such a cycle there is no deadlock: a stack whose top waits is a chain of needs
  (`transGen_needs_of_stacked`), because the dependencies that a `Start` has left behind could be
  started (`Founded`). A set of threads that wait for each other would go round in a cycle of needs.
* With it, a single `Start` is enough: it boots what comes before in the lists of dependencies and
  goes along the cycle until it finds a service that it is itself starting (`Poised`).
-/

namespace Containers.Lifecycle

open Sections List Relation Function

variable {x y : String} {p : StartPoint} {T : List (List Frame)} {s : State} {M : DefaultManager}
  {m m' : Memory} {o : Option String} {n d : String} {used made rest st : List Frame} {op : ℕ}

/-! ### Deadlock -/

def StartPoint.Leads (p : StartPoint) (op : ℕ) : Prop := p.handle = some op ∧ p ≠ .wait op

/-- **The thread is blocked**: its innermost `Start` follows this boot, which is not over. -/
def Waits (s : State) (i op : ℕ) : Prop :=
  ∃ n st, s.threads[i]? = some (.start n (.wait op) :: st) ∧ (s.memory.startOp op).done = false

/-- The boot is led by a `Start` of the thread. -/
def LeadsBoot (s : State) (i op : ℕ) : Prop :=
  ∃ st, s.threads[i]? = some st ∧ ∃ n p, .start n p ∈ st ∧ p.Leads op

/-- **A deadlock**: a set of threads, each blocked on a boot whose leader is in the set, or is
blocked on a boot that is led from the set. The `Start`s of one thread are blocked together. -/
def Deadlocked (s : State) : Prop :=
  ∃ D : Set ℕ, D.Nonempty ∧ ∀ i ∈ D, ∃ op j, Waits s i op ∧ LeadsBoot s j op ∧
    (j ∈ D ∨ ∃ op' k, Waits s j op' ∧ LeadsBoot s k op' ∧ k ∈ D)

/-- Nothing but `Start` is called. -/
def StartsOnly : State → Action → Prop
  | _, .call (.start _) => True
  | _, .call _ => False
  | _, .step _ _ => True

/-- The states that are reached by the interleavings of `Start`s. -/
abbrev StartsReached (M : DefaultManager) : State → Prop := (system M).Reach StartsOnly initial

/-! ### What has been started could be started -/

/-- What the point of a `Start` says about the dependencies of its service. -/
def StartPoint.Founded (M : DefaultManager) (n : String) : StartPoint → Prop
  | .enter | .fail _ _ | .finish _ (some _) => True
  | .wait _ => (M.services.lookup n).isSome
  | .deps _ rest => ∃ spec, M.services.lookup n = some spec ∧
      ∃ pre, spec.dependencies = pre ++ rest ∧ ∀ x ∈ pre, Startable M x
  | .awaitDep _ dep rest => ∃ spec, M.services.lookup n = some spec ∧
      ∃ pre, spec.dependencies = pre ++ dep :: rest ∧ ∀ x ∈ pre, Startable M x
  | .up _ | .check _ | .health _ _ | .commit _ | .monitor _ | .arm _ _ | .finish _ none =>
      Startable M n

/-- Only `Start`s, with what their points say. -/
def Frame.Founded (M : DefaultManager) : Frame → Prop
  | .start n p => p.Founded M n
  | .ret _ => True
  | _ => False

/-- A `Start` that has returned without an error has started its service. -/
def Returned (M : DefaultManager) (st : List Frame) : Prop :=
  ∀ n op dep rest, [.ret none, .start n (.awaitDep op dep rest)] <+: st → Startable M dep

/-- **The invariant**: what is `running`, what a boot has started, and what a `Start` has left
behind could be started. -/
structure Founded (M : DefaultManager) (m : Memory) (T : List (List Frame)) : Prop where
  running : ∀ n, (m.entry n).state = .running → Startable M n
  done : ∀ op, (m.startOp op).done = true → (m.startOp op).err = none →
    Startable M (m.startOp op).service
  frames : ∀ st ∈ T, ∀ f ∈ st, f.Founded M
  returned : ∀ st ∈ T, Returned M st

theorem founded_initial : Founded M {} [] where
  running _ h := by cases h
  done _ h := by cases h
  frames _ h := absurd h not_mem_nil
  returned _ h := absurd h not_mem_nil

theorem running_of_startStep (h : startStep M m o n p = some (m', made))
    (hx : (m'.entry x).state = .running) :
    (m.entry x).state = .running ∨ x = n ∧ ∃ op, p = .commit op := by
  -- a write that does not make the service `running`
  have hwrite : ∀ f : ServiceEntry → ServiceEntry, ((m.modify n f).entry x).state = .running →
      (∀ e, (f e).state = .running → e.state = .running) → (m.entry x).state = .running := by
    intro f hx hf
    rw [entry_modify_apply] at hx
    split_ifs at hx with hn
    · rw [hn]
      exact hf _ hx
    · exact hx
  cases startStep_cases h with
  | missing | already | orphaned | follow | told | ready | call | up | noUp | upFailed | noCheck
    | superseded | noMonitor | arm | finish => exact .inl hx
  | lead =>
    exact .inl (hwrite (fun e => { e with state := .starting, startOp := some m.nextOp }) hx
      fun _ h => by cases h)
  | check =>
    refine .inl ?_
    split_ifs at hx <;> exact hx
  | healthy | unhealthy => exact .inl (hwrite _ hx fun _ => id)
  | fail =>
    exact .inl (hwrite (fun e => { e with state := .stopped }) hx fun _ h => by cases h)
  | cancelled => exact .inl (hwrite _ hx fun _ h => by cases h)
  | @own op =>
    by_cases hn : x = n
    · exact .inr ⟨hn, op, rfl⟩
    · rw [Memory.setState, entry_modify_apply, if_neg hn] at hx
      exact .inl hx
  | monitor =>
    exact .inl (hwrite (fun e => { e with idleCtrl := some m.timers.length }) hx fun _ => id)

theorem done_of_startStep (h : startStep M m o n p = some (m', made))
    (hop : (m'.startOp op).done = true) : m'.startOp op = m.startOp op ∨
      ∃ err, p = .finish op err ∧
        (m'.startOp op).service = (m.startOp op).service ∧ (m'.startOp op).err = err := by
  cases startStep_cases h with
  | missing | already | orphaned | follow | told | ready | call | up | noUp | upFailed | noCheck
    | healthy | unhealthy | fail | own | cancelled | superseded | monitor | noMonitor | arm =>
    exact .inl rfl
  | lead =>
    rw [startOp_lead, update_apply] at hop ⊢
    split_ifs at hop ⊢ with hnew
    exact .inl rfl
  | check =>
    refine .inl ?_
    split_ifs <;> rfl
  | @finish op' err =>
    rw [startOp_settle]
    split_ifs with h
    · subst h
      exact .inr ⟨err, rfl, rfl, rfl⟩
    · exact .inl rfl

/-- **A step of a `Start` leaves behind what its point says**, and returns without an error only
if its service could be started. -/
theorem frames_founded_of_startStep (hI : Founded M m T) (howned : Owned m T.flatten)
    (hself : (Frame.start n p).Owned m) (hp : p.Founded M n)
    (h : startStep M m o n p = some (m', made)) :
    (∀ f ∈ made, f.Founded M) ∧ (made = [.ret none] → Startable M n) := by
  have hon : ∀ {q : StartPoint}, q.Founded M n → (∀ f ∈ [Frame.start n q], f.Founded M) ∧
      ([Frame.start n q] = [.ret none] → Startable M n) := by
    intro q hq
    refine ⟨fun f hf => ?_, fun h => by cases h⟩
    rw [mem_singleton.mp hf]
    exact hq
  have hret : ∀ {err : Option String}, (err = none → Startable M n) →
      (∀ f ∈ [Frame.ret err], f.Founded M) ∧ ([Frame.ret err] = [.ret none] → Startable M n) := by
    intro err herr
    refine ⟨fun f hf => ?_, fun h => ?_⟩
    · rw [mem_singleton.mp hf]
      trivial
    · cases h
      exact herr rfl
  cases startStep_cases h with
  | missing => exact hret fun h => by cases h
  | already _ hstate => exact hret fun _ => hI.running n hstate
  | orphaned _ hstate hop => exact absurd hop (howned.starting n hstate)
  | follow hspec => exact hon (by rw [StartPoint.Founded, hspec]; rfl)
  | @lead spec hspec => exact hon ⟨spec, hspec, [], rfl, fun _ hx => by cases hx⟩
  | @told op hdone =>
    refine hret fun herr => ?_
    rw [← (hself op rfl).2]
    exact hI.done op hdone herr
  | ready =>
    obtain ⟨spec, hspec, pre, hpre, hstart⟩ := hp
    rw [append_nil] at hpre
    exact hon (Startable.intro hspec (hpre ▸ hstart))
  | call =>
    refine ⟨fun f hf => ?_, fun h => by cases h⟩
    rcases mem_cons.mp hf with rfl | hf
    · trivial
    · rw [mem_singleton.mp hf]
      exact hp
  | up | noUp | check | noCheck | healthy | own | monitor | noMonitor | arm => exact hon hp
  | upFailed | unhealthy | fail | cancelled | superseded => exact hon trivial
  | @finish op err =>
    refine hret fun herr => ?_
    subst herr
    exact hp

/-- **Every step of a `Start` keeps the invariant.** -/
theorem Founded.turn {T' : List (List Frame)} (h : Founded M m (T ++ (used ++ rest) :: T'))
    (hord : Orderly m (T ++ (used ++ rest) :: T')) (hturn : Turn M m o used m' made) :
    Founded M m' (T ++ (made ++ rest) :: T') := by
  have hmem : used ++ rest ∈ T ++ (used ++ rest) :: T' := mem_append_cons_self
  have hstacked := hord.stacked _ hmem
  have hused : ∀ f ∈ used, f.Founded M := fun f hf => h.frames _ hmem f (mem_append_left _ hf)
  -- the memory, and what the step puts on top of the rest of the stack
  have hgoal : (∀ x, (m'.entry x).state = .running → Startable M x) →
      (∀ op, (m'.startOp op).done = true → (m'.startOp op).err = none →
        Startable M (m'.startOp op).service) →
      (∀ f ∈ made, f.Founded M) → Returned M (made ++ rest) →
      Founded M m' (T ++ (made ++ rest) :: T') := by
    intro hrunning hdone hmade hreturned
    refine ⟨hrunning, hdone, forall_mem_before ?_ (forall_mem_others h.frames),
      forall_mem_before hreturned (forall_mem_others h.returned)⟩
    exact forall_mem_append.mpr
      ⟨hmade, fun f hf => h.frames _ hmem f (mem_append_right _ hf)⟩
  -- a step of a `Start`
  have hstart : ∀ {n p}, used = [.start n p] → startStep M m o n p = some (m', made) →
      ((made = [.ret none] → Startable M n) → Returned M (made ++ rest)) →
      Founded M m' (T ++ (made ++ rest) :: T') := by
    rintro n p rfl hstep hreturned
    have hp : p.Founded M n := hused _ (mem_singleton_self _)
    have hself : (Frame.start n p).Owned m := hord.owned.frames _ (by simp)
    obtain ⟨hmade, hnone⟩ := frames_founded_of_startStep h hord.owned hself hp hstep
    refine hgoal (fun x hx => ?_) (fun op hop herr => ?_) hmade (hreturned hnone)
    · rcases running_of_startStep hstep hx with hx | ⟨rfl, op, rfl⟩
      · exact h.running x hx
      · exact hp
    · rcases done_of_startStep hstep hop with hold | ⟨err, rfl, hservice, herr'⟩
      · rw [hold] at hop herr ⊢
        exact h.done op hop herr
      · cases herr'.symm.trans herr
        rw [hservice, (hself op rfl).2]
        exact hp
  cases turnStep_of_turn hturn with
  | start hstep =>
    exact hstart rfl hstep fun _ _ _ _ _ hpre => by cases (cons_prefix_cons.mp hpre).1
  | startCall =>
    exact hstart rfl rfl fun _ _ _ _ _ hpre => by cases (cons_prefix_cons.mp hpre).1
  | startRet hstep =>
    -- a `Start` that has returned stands where it was called
    refine hstart rfl hstep fun hnone n' op dep rest' hpre => ?_
    obtain ⟨hhead, tail, rfl⟩ := cons_prefix_cons.mp hpre
    cases (isChain_cons_cons.mp hstacked).1
    exact hnone (by rw [hhead])
  | stop | stopRet | acquire | acquireCall | acquireRet | release | releaseRet | fire | fireRet
    | shutdown | shutdownRet => exact absurd (hused _ (mem_singleton_self _)) id
  | @depRet err n dep op deps p hp =>
    have hcaller : (Frame.start n (.awaitDep op dep deps)).Founded M := hused _ (by simp)
    refine hgoal h.running h.done (fun f hf => ?_) fun _ _ _ _ hpre => ?_
    · rw [mem_singleton.mp hf]
      rcases hp with ⟨rfl, rfl⟩ | ⟨text, rfl⟩
      · have hdep : Startable M dep := h.returned _ hmem n op dep deps ⟨rest, rfl⟩
        obtain ⟨spec, hspec, pre, hpre, hstart⟩ := hcaller
        exact ⟨spec, hspec, pre ++ [dep], by rw [hpre, append_cons],
          forall_mem_call hstart hdep⟩
      · trivial
    · cases (cons_prefix_cons.mp hpre).1
  | bootRet | nextStop =>
    exact absurd (hused _ (mem_cons_of_mem _ (mem_singleton_self _))) id
  | leave =>
    refine hgoal h.running h.done (fun _ hf => by cases hf) fun n' op dep deps hpre => ?_
    obtain ⟨tail, rfl⟩ := hpre
    cases (isChain_cons_cons.mp hstacked).1

theorem Founded.call (h : Founded M m T) : Founded M m (T ++ [[.start n .enter]]) := by
  refine ⟨h.running, h.done,
    forall_mem_call h.frames (forall_mem_singleton.mpr trivial),
    forall_mem_call h.returned ?_⟩
  rintro _ _ _ _ ⟨_, hpre⟩
  cases hpre

/-- **So it is in every interleaving of `Start`s.** -/
theorem founded_of_startsReached (h : StartsReached M s) :
    Orderly s.memory s.threads ∧ Founded M s.memory s.threads := by
  refine reach_induction (I := fun m T => Orderly m T ∧ Founded M m T)
    ⟨orderly_initial, founded_initial⟩ ?_ ?_ h
  · rintro m T c f ⟨hord, hI⟩ hK hc
    cases c with
    | start n =>
      cases hc
      exact ⟨hord.call (c := .start n) rfl, hI.call⟩
    | stop | acquire | release | expire | shutdown => exact absurd hK id
  · rintro m T T' used rest o m' made ⟨hord, hI⟩ - hturn
    exact ⟨hord.turn hturn, hI.turn hord hturn⟩

/-! ### Without a cycle -/

/-- **A stack is a chain of needs**: what a frame further down starts needs what the top does. -/
theorem transGen_needs_of_stacked (hchain : Stacked (.start n p :: rest))
    (hreg : (M.services.lookup n).isSome) (hfounded : ∀ f ∈ rest, f.Founded M) {q : StartPoint}
    (hx : .start x q ∈ rest) : TransGen (Needs M) x n := by
  -- along the stack, from the top
  induction rest generalizing n p with
  | nil => cases hx
  | cons f rest ih =>
    obtain ⟨hcalls, hchain⟩ := isChain_cons_cons.mp hchain
    have hf : f.Founded M := hfounded f mem_cons_self
    cases hcalls with
    | boot => exact absurd hf id
    | @dep y _ op deps =>
      obtain ⟨spec, hspec, pre, hpre, hstart⟩ := hf
      have hneed : Needs M y n := ⟨hreg, spec, hspec, pre, deps, hpre, hstart⟩
      rcases mem_cons.mp hx with hx | hx
      · cases hx
        exact .single hneed
      · exact (ih hchain (by rw [hspec]; rfl) (fun g hg => hfounded g (mem_cons_of_mem _ hg))
          hx).tail hneed

def WaitsFor (s : State) (i : ℕ) (n : String) : Prop :=
  ∃ op st, s.threads[i]? = some (.start n (.wait op) :: st)

theorem WaitsFor.unique {i : ℕ} (hx : WaitsFor s i x) (hy : WaitsFor s i y) : x = y := by
  obtain ⟨op, st, hx⟩ := hx
  obtain ⟨op', st', hy⟩ := hy
  cases hx.symm.trans hy
  rfl

/-- **Blocked on a boot that a blocked thread leads**: the first service needs the second. -/
theorem transGen_needs_of_leads (h : StartsReached M s) {i j op' : ℕ} (hi : Waits s i op)
    (hj : LeadsBoot s j op) (hj' : Waits s j op') :
    ∃ x y, WaitsFor s i x ∧ WaitsFor s j y ∧ TransGen (Needs M) x y := by
  obtain ⟨hord, hI⟩ := founded_of_startsReached h
  obtain ⟨x, st, hst, -⟩ := hi
  obtain ⟨y, st', hst', -⟩ := hj'
  obtain ⟨_, hled, x', p, hp, hop, hne⟩ := hj
  cases hled.symm.trans hst'
  have hframe : ∀ {st : List Frame} {k : ℕ}, s.threads[k]? = some st → ∀ f ∈ st, f.Owned s.memory :=
    fun hk f hf => hord.owned.frames f
      (mem_flatten.mpr ⟨_, mem_of_getElem? hk, hf⟩)
  -- the leader's service is the one that is waited for
  have hx : x' = x := by
    have hx : (Frame.start x (.wait op)).Owned s.memory := hframe hst _ mem_cons_self
    have hx' : (Frame.start x' p).Owned s.memory := hframe hst' _ hp
    rw [← (hx op rfl).2, (hx' op hop).2]
  subst hx
  refine ⟨x', y, ⟨op, st, hst⟩, ⟨op', st', hst'⟩, ?_⟩
  have hthread := mem_of_getElem? hst'
  refine transGen_needs_of_stacked (hord.stacked _ hthread) ?_
    (fun f hf => hI.frames _ hthread f (mem_cons_of_mem _ hf)) (q := p) ?_
  · exact hI.frames _ hthread _ mem_cons_self
  · rcases mem_cons.mp hp with hp | hp
    · cases hp
      cases hop
      exact absurd rfl hne
    · exact hp

/-- **Without a cycle there is no deadlock.** -/
theorem not_deadlocked_of_acyclic (hacyclic : ∀ n, ¬TransGen (Needs M) n n)
    (h : StartsReached M s) : ¬Deadlocked s := by
  rintro ⟨D, ⟨i₀, hi₀⟩, hD⟩
  -- the services that the set waits for: finitely many, as there are finitely many threads
  let W : Set String := { x | ∃ i ∈ D, WaitsFor s i x }
  have hWfinite : W.Finite := by
    refine ((Set.finite_lt_nat s.threads.length).biUnion fun i _ =>
      Set.Subsingleton.finite (s := { x | WaitsFor s i x }) ?_).subset ?_
    · exact fun x hx y => hx.unique
    · rintro x ⟨i, -, op, st, hx⟩
      exact Set.mem_biUnion (List.getElem?_eq_some_iff.mp hx).1 ⟨op, st, hx⟩
  -- each of them needs another one
  have hnext : ∀ x ∈ W, ∃ y ∈ W, TransGen (Needs M) x y := by
    rintro x ⟨i, hi, hx⟩
    obtain ⟨op, j, hwait, hlead, hj | ⟨op', k, hwait', hlead', hk⟩⟩ := hD i hi
    · obtain ⟨_, _, hj', -⟩ := hD j hj
      obtain ⟨x', y, hx', hy, hneed⟩ := transGen_needs_of_leads h hwait hlead hj'
      cases hx.unique hx'
      exact ⟨y, ⟨j, hj, hy⟩, hneed⟩
    · obtain ⟨_, _, hk', -⟩ := hD k hk
      obtain ⟨x', y, hx', hy, hneed⟩ := transGen_needs_of_leads h hwait hlead hwait'
      obtain ⟨y', z, hy', hz, hneed'⟩ := transGen_needs_of_leads h hwait' hlead' hk'
      cases hx.unique hx'
      cases hy.unique hy'
      exact ⟨z, ⟨k, hk, hz⟩, hneed.trans hneed'⟩
  -- which closes a circle, as they are finitely many
  obtain ⟨op, -, ⟨x, st, hx, -⟩, -⟩ := hD i₀ hi₀
  obtain ⟨x, hcircle⟩ :=
    Layers.exists_transGen_self_of_finite hWfinite ⟨x, i₀, hi₀, op, st, hx⟩ hnext
  exact hacyclic x hcircle

/-! ### With a cycle -/

theorem not_startable_of_cycle (hcycle : TransGen (Needs M) n n)
    (hy : ReflTransGen (Needs M) y n) : ¬Startable M y :=
  fun h => (h.of_reflTransGen (ReflTransGen.mono (fun _ _ => Needs.dependsOn) y n hy)).acyclic
    (TransGen.mono (fun _ _ => Needs.dependsOn) n n hcycle)

def LedIn (m : Memory) (st : List Frame) (n : String) (op : ℕ) : Prop :=
  (m.startOp op).done = false ∧ ∃ p, .start n p ∈ st ∧ p.Leads op

/-- **A stack on its way along a cycle**: what can be started is settled, and anything else that
is `starting` is led in the stack. -/
structure Poised (M : DefaultManager) (m : Memory) (st : List Frame) : Prop where
  settled : ∀ x, Startable M x → m.Settled x
  led : ∀ x, ¬Startable M x → (m.entry x).state = .stopped ∨
    (m.entry x).state = .starting ∧
      ∃ op, (m.entry x).startOp = some op ∧ op < m.nextOp ∧ LedIn m st x op

theorem poised_initial : Poised M {} [] := ⟨fun _ _ => .inl rfl, fun _ _ => .inl rfl⟩

/-- **One step along the cycle**: the boots of what comes before in the list of dependencies are
over, and the `Start` of what is needed has been called. -/
theorem Poised.descend (h : Poised M m st) (hy : ¬Startable M y) (hneed : Needs M y d)
    (hstopped : (m.entry y).state = .stopped) :
    ∃ m' f, (system M).Alone (m, .start y .enter :: st) (m', .start d .enter :: f :: st) ∧
      Poised M m' (f :: st) ∧ (m'.entry y).state = .starting ∧
      ∀ x, ¬Startable M x → x ≠ y → m'.entry x = m.entry x := by
  obtain ⟨-, spec, hspec, pre, post, hdeps, hpre⟩ := hneed
  have henter : startStep M m none y .enter =
      some (m.lead y, [.start y (.deps m.nextOp (pre ++ d :: post))]) := by
    simp only [startStep, hspec, hstopped, Option.elim_some, hdeps]
  have hne : ∀ {x}, Startable M x → x ≠ y := fun hx hxy => hy (hxy ▸ hx)
  have hlead : ∀ x, Startable M x → (m.lead y).Settled x :=
    fun x hx => (h.settled x hx).congr (by rw [entry_lead, if_neg (hne hx)])
  obtain ⟨m', hrun, hconf⟩ :=
    exists_alone_deps (fun e he => boots_of_startable (hpre e he)) y m.nextOp
    (d :: post) st fun e he x hx => hlead x ((hpre e he).of_reflTransGen hx)
  -- nothing on the way is touched by these boots
  have hentry : ∀ x, ¬Startable M x → m'.entry x = (m.lead y).entry x := by
    intro x hx
    refine hconf.entry x ?_
    rintro ⟨e, he, hex⟩
    exact hx ((hpre e he).of_reflTransGen hex)
  have hopen : (m'.startOp m.nextOp).done = false := by
    rw [hconf.startOp m.nextOp (Nat.lt_succ_self _), startOp_lead, update_self]
  refine ⟨m', .start y (.awaitDep m.nextOp d post),
    alone_go_on henter (hrun.trans (alone_start rfl .refl)),
    ⟨fun x hx => hconf.settled x (hlead x hx), fun x hx => ?_⟩, ?_, fun x hx hxy => ?_⟩
  · rw [hentry x hx, entry_lead]
    by_cases hxy : x = y
    · subst hxy
      rw [if_pos rfl]
      exact .inr ⟨rfl, m.nextOp, rfl, (Nat.lt_succ_self _).trans_le hconf.nextOp, hopen, _,
        mem_cons_self, rfl, fun h => by cases h⟩
    · rw [if_neg hxy]
      refine (h.led x hx).imp_right ?_
      rintro ⟨hstate, op, hop, hlt, hdone, p, hp, hleads⟩
      have hlt' : op < (m.lead y).nextOp := hlt.trans (Nat.lt_succ_self _)
      refine ⟨hstate, op, hop, hlt'.trans_le hconf.nextOp, ?_, p, mem_cons_of_mem _ hp, hleads⟩
      rw [hconf.startOp op hlt', startOp_lead, update_of_ne hlt.ne]
      exact hdone
  · rw [hentry y hy, entry_lead, if_pos rfl]
  · rw [hentry x hx, entry_lead, if_neg hxy]

theorem Poised.wait (h : Poised M m st) (hx : ¬Startable M x) (hneed : Needs M x d)
    (hstarting : (m.entry x).state = .starting) :
    ∃ op, (system M).Alone (m, .start x .enter :: st) (m, .start x (.wait op) :: st) ∧
      LedIn m st x op := by
  obtain ⟨-, spec, hspec, -⟩ := hneed
  rcases h.led x hx with hstopped | ⟨-, op, hop, -, hled⟩
  · cases hstopped.symm.trans hstarting
  · have hfollow : startStep M m none x .enter = some (m, [.start x (.wait op)]) := by
      simp only [startStep, hspec, hstarting, hop, Option.elim_some]
    exact ⟨op, alone_go_on hfollow .refl, hled⟩

/-- **Along the cycle** to a service that is being started: the thread blocks itself. -/
theorem Poised.blocks (h : Poised M m st) (hcycle : TransGen (Needs M) n n)
    (hy : ReflTransGen (Needs M) y n) (hstarting : (m.entry n).state = .starting) :
    ∃ m' x op st', (system M).Alone (m, .start y .enter :: st) (m', .start x (.wait op) :: st') ∧
      LedIn m' st' x op := by
  have hn : ¬Startable M n := not_startable_of_cycle hcycle .refl
  induction hy using ReflTransGen.head_induction_on generalizing m st with
  | refl =>
    obtain ⟨d, hneed, -⟩ := TransGen.head'_iff.mp hcycle
    obtain ⟨op, hrun, hled⟩ := h.wait hn hneed hstarting
    exact ⟨m, n, op, st, hrun, hled⟩
  | @head y d hneed hrest ih =>
    have hy : ¬Startable M y := not_startable_of_cycle hcycle (hrest.head hneed)
    rcases h.led y hy with hstopped | ⟨hstate, -⟩
    · obtain ⟨m₁, f, hrun, h₁, hy₁, hother⟩ := h.descend hy hneed hstopped
      have hstarting₁ : (m₁.entry n).state = .starting := by
        by_cases hny : n = y
        · rw [hny, hy₁]
        · rw [hother n hn hny, hstarting]
      obtain ⟨m', x, op, st', hrun', hled⟩ := ih h₁ hstarting₁
      exact ⟨m', x, op, st', hrun.trans hrun', hled⟩
    · obtain ⟨op, hrun, hled⟩ := h.wait hy hneed hstate
      exact ⟨m, y, op, st, hrun, hled⟩

theorem deadlocked_of_ledIn (h : LedIn m st x op) :
    Deadlocked ⟨m, [.start x (.wait op) :: st]⟩ := by
  obtain ⟨hopen, p, hp, hleads⟩ := h
  refine ⟨{0}, ⟨0, rfl⟩, fun i hi => ?_⟩
  cases hi
  exact ⟨op, 0, ⟨x, st, rfl, hopen⟩, ⟨_, rfl, x, p, mem_cons_of_mem _ hp, hleads⟩, .inl rfl⟩

/-- **With a cycle there is a deadlock**, of a single `Start`. -/
theorem exists_deadlocked_of_cycle (hcycle : TransGen (Needs M) n n) :
    ∃ s, StartsReached M s ∧ Deadlocked s := by
  have hn : ¬Startable M n := not_startable_of_cycle hcycle .refl
  obtain ⟨d, hneed, hback⟩ := TransGen.head'_iff.mp hcycle
  obtain ⟨m₁, f, hrun, h₁, hstarting, -⟩ := poised_initial.descend hn hneed rfl
  obtain ⟨m', x, op, st', hrun', hled⟩ := h₁.blocks hcycle hback hstarting
  have hcall : StartsReached M ⟨{}, [] ++ [Frame.start n .enter] :: []⟩ :=
    ThreadSystem.Reach.start.next (a := .call (.start n)) trivial rfl
  exact ⟨_, hcall.alone (fun _ _ _ => trivial) (hrun.trans hrun'), deadlocked_of_ledIn hled⟩

/-! ### The result -/

/-- **`Start`s cannot deadlock exactly when no service needs itself.** -/
theorem deadlock_free_iff (M : DefaultManager) :
    (∀ s, StartsReached M s → ¬Deadlocked s) ↔ ∀ n, ¬TransGen (Needs M) n n := by
  constructor
  · intro hfree n hcycle
    obtain ⟨s, hs, hdead⟩ := exists_deadlocked_of_cycle hcycle
    exact hfree s hs hdead
  · exact fun hacyclic s => not_deadlocked_of_acyclic hacyclic

instance (s : State) (a : Action) : Decidable (StartsOnly s a) :=
  match a with
  | .call (.start _) | .step _ _ => .isTrue trivial
  | .call (.stop _) | .call (.acquire _) | .call (.release _) | .call (.expire _)
  | .call (.shutdown _) => .isFalse id

def loop : ServiceSpec := { name := "loop", dependencies := ["loop"] }

/-- **A service that depends on itself is registered, and its `Start` never returns**: it waits
for the boot that it leads. -/
theorem start_deadlocks :
    ∃ M, DefaultManager.register {} loop = .ok M ∧ ∃ s, StartsReached M s ∧ Deadlocked s := by
  refine ⟨oneService loop, rfl, ?_⟩
  obtain ⟨⟨m, threads⟩, hs, hthreads, hopen⟩ : ∃ s, StartsReached (oneService loop) s ∧
      s.threads = [[.start "loop" (.wait 0), .start "loop" (.awaitDep 0 "loop" [])]] ∧
      (s.memory.startOp 0).done = false :=
    ThreadSystem.Reach.exists_of_runMeeting (.call (.start "loop") :: steps 0 3) (by decide +kernel)
  cases hthreads
  exact ⟨_, hs, deadlocked_of_ledIn ⟨hopen, _, mem_cons_self, rfl, fun h => by cases h⟩⟩

end Containers.Lifecycle
