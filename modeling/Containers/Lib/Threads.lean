import Mathlib.Data.List.Basic
import Mathlib.Tactic

/-!
# Threads with call stacks over a shared memory

A concurrent component is described here by what *one* thread does in one atomic step: it reads and
changes the shared memory, and replaces its own call stack (`ThreadSystem`). A step is given an
outcome from outside – what a slow call came to, whether a wait was cancelled – and is refused while
the thread has to wait. New threads are started by calls from outside, at any time and any number of
them.

* `next` – one action: a call, or a step of one thread. It is a function, so a run is a computation
  (`runMeeting`), and so are the steps of a thread that is left alone (`runThread`).
* `Alone` – what a thread that is left alone can come to.
* `Reach` – the states that runs reach whose actions all meet a condition `K`, which may look at the
  state before the action. With `K` true throughout, these are all interleavings.
* `Reach.invariant` – the rule for all of them, and `next_step`, which says that a step replaces one
  stack and leaves the others alone.
-/

namespace Containers

open Option

/-- **A system of threads**: what a call starts, and what a thread does in a step. -/
structure ThreadSystem (μ φ ο κ : Type) where
  /-- The stack of the thread that a call starts, if the call can be made. -/
  call : μ → κ → Option (List φ)
  /-- One atomic step of a thread, given its stack and an outcome from outside; nothing
  while it has to wait. -/
  step : μ → ο → List φ → Option (μ × List φ)

namespace ThreadSystem

/-- A state: the shared memory, and the call stack of each thread, innermost call
first. -/
structure State (μ φ : Type) where
  memory : μ
  threads : List (List φ)

/-- What can happen: a call from outside, or a step of the thread with this number. -/
inductive Action (ο κ : Type)
  | call (c : κ)
  | step (i : ℕ) (o : ο)

variable {μ φ ο κ : Type} {S : ThreadSystem μ φ ο κ} {s s' : State μ φ} {st st' : List φ} {o : ο}

def State.frames (s : State μ φ) : List φ := s.threads.flatten

/-- The frame that an action works on: the innermost one of the thread that steps. -/
def State.top (s : State μ φ) : Action ο κ → Option φ
  | .call _ => none
  | .step i _ => s.threads[i]?.bind List.head?

def next (S : ThreadSystem μ φ ο κ) (s : State μ φ) : Action ο κ → Option (State μ φ)
  | .call c => (S.call s.memory c).map fun st => { s with threads := s.threads ++ [st] }
  | .step i o => s.threads[i]?.bind fun st =>
      (S.step s.memory o st).map fun r => ⟨r.1, s.threads.set i r.2⟩

/-- **The states that are reached** by actions that all meet the condition `K`. -/
inductive Reach (S : ThreadSystem μ φ ο κ) (K : State μ φ → Action ο κ → Prop)
    (s₀ : State μ φ) : State μ φ → Prop
  | start : Reach S K s₀ s₀
  | next {s s' : State μ φ} {a : Action ο κ} (h : Reach S K s₀ s) (hK : K s a)
      (hs : S.next s a = some s') : Reach S K s₀ s'

/-- **A run**, as the list of its states. -/
def Run (S : ThreadSystem μ φ ο κ) (run : List (State μ φ)) : Prop :=
  run.IsChain fun s s' => ∃ a, S.next s a = some s'

/-- The actions one after the other, given up where one is refused or does not meet the
condition. -/
def runMeeting (S : ThreadSystem μ φ ο κ) (K : State μ φ → Action ο κ → Prop)
    [∀ s a, Decidable (K s a)] : State μ φ → List (Action ο κ) → Option (State μ φ)
  | s, [] => some s
  | s, a :: as => if K s a then (S.next s a).bind fun s' => S.runMeeting K s' as else none

/-- The steps of one thread that is left alone, with these outcomes. -/
def runThread (S : ThreadSystem μ φ ο κ) : List ο → μ → List φ → Option (μ × List φ)
  | [], m, st => some (m, st)
  | o :: os, m, st => (S.step m o st).bind fun r => S.runThread os r.1 r.2

/-- **What one thread comes to** when it is left alone, whatever the outcomes. -/
def Alone (S : ThreadSystem μ φ ο κ) : μ × List φ → μ × List φ → Prop :=
  Relation.ReflTransGen fun x y => ∃ o, S.step x.1 o x.2 = some y

/-! ### Rules -/

section Rules

variable {K : State μ φ → Action ο κ → Prop} {s₀ : State μ φ}

/-- **What a call does**: it adds a thread. -/
theorem next_call {c : κ} (h : S.next s (.call c) = some s') :
    ∃ st, S.call s.memory c = some st ∧ s' = ⟨s.memory, s.threads ++ [st]⟩ := by
  obtain ⟨st, hst, rfl⟩ := map_eq_some_iff.mp h
  exact ⟨st, hst, rfl⟩

/-- **What a step does**: it changes the memory and the stack of one thread. -/
theorem next_step {i : ℕ} (h : S.next s (.step i o) = some s') :
    ∃ pre st post m st', s.threads = pre ++ st :: post ∧ pre.length = i ∧
      S.step s.memory o st = some (m, st') ∧ s' = ⟨m, pre ++ st' :: post⟩ := by
  obtain ⟨st, hst, h⟩ := bind_eq_some_iff.mp h
  obtain ⟨⟨m, st'⟩, hstep, rfl⟩ := map_eq_some_iff.mp h
  obtain ⟨hi, rfl⟩ := List.getElem?_eq_some_iff.mp hst
  have hsplit : s.threads = s.threads.take i ++ s.threads[i] :: s.threads.drop (i + 1) := by
    rw [List.cons_getElem_drop_succ, List.take_append_drop]
  refine ⟨_, _, _, m, st', hsplit, ?_, hstep, ?_⟩
  · rw [List.length_take]
    omega
  · rw [List.set_eq_take_append_cons_drop, if_pos hi]

theorem next_step_of {m m' : μ} {pre post : List (List φ)} (h : S.step m o st = some (m', st')) :
    S.next ⟨m, pre ++ st :: post⟩ (.step pre.length o) = some ⟨m', pre ++ st' :: post⟩ := by
  simp [next, h]

theorem top_step {pre post : List (List φ)} {m : μ} (o : ο) :
    State.top (κ := κ) ⟨m, pre ++ st :: post⟩ (.step pre.length o) = st.head? := by
  simp [State.top]

/-- **The invariant rule**: what holds at the start and is kept by every action that meets
the condition holds in every state that is reached. -/
theorem Reach.invariant {I : State μ φ → Prop} (h₀ : I s₀)
    (hnext : ∀ s a s', I s → K s a → S.next s a = some s' → I s') (h : S.Reach K s₀ s) : I s := by
  induction h with
  | start => exact h₀
  | next _ hK hs ih => exact hnext _ _ _ ih hK hs

theorem Reach.mono {K' : State μ φ → Action ο κ → Prop} (hK : ∀ s a, K s a → K' s a)
    (h : S.Reach K s₀ s) : S.Reach K' s₀ s := by
  induction h with
  | start => exact .start
  | next _ ha hs ih => exact ih.next (hK _ _ ha) hs

theorem Reach.trans {s₁ : State μ φ} (h : S.Reach K s₀ s₁) (h' : S.Reach K s₁ s) :
    S.Reach K s₀ s := by
  induction h' with
  | start => exact h
  | next _ hK hs ih => exact ih.next hK hs

/-- **The last state of a run is reached**, and the steps of the run are the actions it is reached
by. -/
theorem Run.reach {run : List (State μ φ)} (h : S.Run (s₀ :: run))
    (hK : ∀ s s' a, [s, s'] <:+: s₀ :: run → S.next s a = some s' → K s a)
    (hlast : (s₀ :: run).getLast? = some s) : S.Reach K s₀ s := by
  induction run generalizing s₀ with
  | nil =>
    cases hlast
    exact .start
  | cons s₁ run ih =>
    obtain ⟨⟨a, ha⟩, hrun⟩ := List.isChain_cons_cons.mp h
    have hfirst : S.Reach K s₀ s₁ :=
      Reach.start.next (hK s₀ s₁ a (List.IsPrefix.isInfix ⟨run, rfl⟩) ha) ha
    refine hfirst.trans (ih hrun (fun s s' a hss => hK s s' a ?_) ?_)
    · exact hss.trans (List.suffix_cons s₀ (s₁ :: run)).isInfix
    · rwa [List.getLast?_cons_cons] at hlast

/-- A step of a run comes after what is reached before it, and what comes after it is reached from
there. -/
theorem Run.split {run : List (State μ φ)} {x y : State μ φ} (h : S.Run (s₀ :: run))
    (hK : ∀ s a, K s a) (hxy : [x, y] <:+: s₀ :: run) (hlast : (s₀ :: run).getLast? = some s) :
    S.Reach K s₀ x ∧ S.Reach K y s := by
  obtain ⟨pre, post, heq⟩ := hxy
  have heq' : (pre ++ [x]) ++ y :: post = s₀ :: run := by simp [← heq]
  rw [← heq'] at h
  rw [← heq', List.getLast?_append_cons] at hlast
  refine ⟨?_, Run.reach h.right_of_append (fun s _ a _ _ => hK s a) hlast⟩
  have hpre : S.Run (pre ++ [x]) := h.left_of_append
  cases pre with
  | nil =>
    cases heq'
    exact .start
  | cons z pre =>
    cases heq'
    exact hpre.reach (fun s _ a _ _ => hK s a) (List.getLast?_append_cons (s₀ :: pre) x [])

theorem Reach.of_runMeeting [∀ s a, Decidable (K s a)] {as : List (Action ο κ)}
    (hs : S.Reach K s₀ s) (h : S.runMeeting K s as = some s') : S.Reach K s₀ s' := by
  induction as generalizing s with
  | nil =>
    cases h
    exact hs
  | cons a as ih =>
    obtain ⟨hK, h⟩ := ite_none_right_eq_some.mp h
    obtain ⟨s₁, hnext, h⟩ := bind_eq_some_iff.mp h
    exact ih (hs.next hK hnext) h

theorem runThread_cons {m m' : μ} (os : List ο) (h : S.step m o st = some (m', st')) :
    S.runThread (o :: os) m st = S.runThread os m' st' := by
  rw [runThread, h, bind_some]

theorem Alone.head {m m' : μ} {y : μ × List φ} (o : ο) (h : S.step m o st = some (m', st'))
    (hy : S.Alone (m', st') y) : S.Alone (m, st) y :=
  Relation.ReflTransGen.head ⟨o, h⟩ hy

theorem Reach.alone {m : μ} {y : μ × List φ} {pre post : List (List φ)}
    (hK : ∀ s i o, K s (.step i o)) (h : S.Reach K s₀ ⟨m, pre ++ st :: post⟩)
    (hy : S.Alone (m, st) y) : S.Reach K s₀ ⟨y.1, pre ++ y.2 :: post⟩ := by
  induction hy with
  | refl => exact h
  | tail _ hstep ih =>
    obtain ⟨o, ho⟩ := hstep
    exact ih.next (hK _ _ _) (next_step_of ho)

theorem exists_run_of_runMeeting [∀ s a, Decidable (K s a)] {as : List (Action ο κ)}
    (h : S.runMeeting K s₀ as = some s) :
    ∃ run, S.Run (s₀ :: run) ∧ (s₀ :: run).getLast? = some s := by
  induction as generalizing s₀ with
  | nil =>
    cases h
    exact ⟨[], List.isChain_singleton _, rfl⟩
  | cons a as ih =>
    obtain ⟨-, h⟩ := ite_none_right_eq_some.mp h
    obtain ⟨s₁, hnext, h⟩ := bind_eq_some_iff.mp h
    obtain ⟨run, hrun, hlast⟩ := ih h
    refine ⟨s₁ :: run, List.isChain_cons_cons.mpr ⟨⟨a, hnext⟩, hrun⟩, ?_⟩
    rwa [List.getLast?_cons_cons]

/-- **What is computed is reached**, and can be tested. -/
theorem Reach.exists_of_runMeeting [∀ s a, Decidable (K s a)] (as : List (Action ο κ))
    {P : State μ φ → Prop} [DecidablePred P]
    (h : (S.runMeeting K s₀ as).any (fun s => decide (P s)) = true) :
    ∃ s, S.Reach K s₀ s ∧ P s := by
  obtain ⟨s, hrun, hP⟩ := any_eq_true _ _ |>.mp h
  exact ⟨s, Reach.start.of_runMeeting hrun, of_decide_eq_true hP⟩

theorem Run.exists_of_runMeeting [∀ s a, Decidable (K s a)] (as : List (Action ο κ))
    {P : State μ φ → Prop} [DecidablePred P]
    (h : (S.runMeeting K s₀ as).any (fun s => decide (P s)) = true) :
    ∃ run s, S.Run (s₀ :: run) ∧ (s₀ :: run).getLast? = some s ∧ P s := by
  obtain ⟨s, hrun, hP⟩ := any_eq_true _ _ |>.mp h
  obtain ⟨run, hrun, hlast⟩ := exists_run_of_runMeeting hrun
  exact ⟨run, s, hrun, hlast, of_decide_eq_true hP⟩

end Rules

end ThreadSystem

end Containers
