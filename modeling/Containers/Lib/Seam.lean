import Mathlib.Data.List.Basic
import Mathlib.Tactic

/-!
# Programs behind seams

A component that only ever acts through the interfaces it was given – an executor, a registry, a
logger – is a program over *seam calls*: it makes a call, is given an outcome, and goes on from
there (`Prog`). Nothing it does is hidden, and nothing about the outcomes is assumed: a call `c` may
be answered by any value of the type `O c`.

What such a program did is its *trace*, the calls with their outcomes, latest first. It is run
against an environment that answers a call knowing all that came before (`run`), which is as much
freedom as a set of mutable collaborators has.

The reasoning is by weakest preconditions (`wp`), demonic in the outcomes: after *every* outcome
that meets the assumption `S`, the postcondition holds of the result and of the trace. The rules
follow the program, with an invariant for a loop (`wp_foldlM`), and `wp.of_run` brings the
conclusion back to runs: whatever the environment, if all it answered meets the assumption, the
postcondition holds at the end.
-/

namespace Containers

open List

variable {C : Type} {O : C → Type} {α β : Type}

/-- **A program over seam calls**: a result, or a call and what to do with its
outcome. -/
inductive Prog {C : Type} (O : C → Type) (α : Type) : Type
  | ret (a : α) : Prog O α
  | call (c : C) (k : O c → Prog O α) : Prog O α

/-- A call that was made, with its outcome. -/
structure Event {C : Type} (O : C → Type) where
  call : C
  outcome : O call

abbrev Trace {C : Type} (O : C → Type) := List (Event O)

/-- Every event of a trace satisfies `S`, at the point it was added. -/
def Trace.Holds (S : Trace O → Event O → Prop) : Trace O → Prop
  | [] => True
  | e :: t => S t e ∧ Trace.Holds S t

theorem Trace.holds_of_forall {S : Event O → Prop} {t : Trace O} (h : ∀ e ∈ t, S e) :
    Trace.Holds (fun _ => S) t := by
  induction t with
  | nil => trivial
  | cons e t ih =>
    exact ⟨h e mem_cons_self, ih fun e' he' => h e' (mem_cons_of_mem e he')⟩

theorem Trace.Holds.forall_of_answered {env : Trace O → (c : C) → O c} {A : Event O → Prop}
    (hA : ∀ t c, A ⟨c, env t c⟩) {t : Trace O}
    (h : Trace.Holds (fun t e => e.outcome = env t e.call) t) : ∀ e ∈ t, A e := by
  induction t with
  | nil => simp
  | cons e t ih =>
    intro e' he'
    rcases mem_cons.mp he' with rfl | he'
    · have hA' := hA t e'.call
      rwa [← h.1] at hA'
    · exact ih h.2 e' he'

theorem Trace.Holds.and {S S' : Trace O → Event O → Prop} {t : Trace O} (h : Trace.Holds S t)
    (h' : Trace.Holds S' t) : Trace.Holds (fun t e => S t e ∧ S' t e) t := by
  induction t with
  | nil => trivial
  | cons e t ih => exact ⟨⟨h.1, h'.1⟩, ih h.2 h'.2⟩

theorem Trace.Holds.of_append {S : Trace O → Event O → Prop} {t new : Trace O}
    (h : Trace.Holds S (new ++ t)) : Trace.Holds S t := by
  induction new with
  | nil => exact h
  | cons e new ih => exact ih h.2

/-- **What was added to a trace**: events of calls that satisfy `A`, and no others. -/
def Trace.Adds (A : C → Prop) (t t' : Trace O) : Prop :=
  ∃ new, t' = new ++ t ∧ ∀ e ∈ new, A e.call

/-- **The calls that were made** from one trace to a later one, first to last. -/
def Trace.Makes (cs : List C) (t t' : Trace O) : Prop :=
  ∃ new, t' = new ++ t ∧ new.reverse.map (·.call) = cs

theorem Trace.Makes.snoc {cs : List C} {c : C} {t t' : Trace O} (h : Trace.Makes cs t t')
    (o : O c) : Trace.Makes (cs ++ [c]) t (⟨c, o⟩ :: t') := by
  obtain ⟨new, rfl, rfl⟩ := h
  exact ⟨⟨c, o⟩ :: new, rfl, by simp⟩

theorem Trace.Adds.any_eq {A : C → Prop} {f : Event O → Bool} {t t' : Trace O}
    (h : Trace.Adds A t t') (hf : ∀ e, A e.call → f e = false) : t'.any f = t.any f := by
  obtain ⟨new, rfl, hnew⟩ := h
  have hnone : new.any f = false := any_eq_false.mpr fun e he => by simp [hf e (hnew e he)]
  rw [any_append, hnone, Bool.false_or]

namespace Prog

def bind : Prog O α → (α → Prog O β) → Prog O β
  | ret a, f => f a
  | call c k, f => call c fun o => bind (k o) f

instance : Monad (Prog O) where
  pure := ret
  bind := bind

def perform (c : C) : Prog O (O c) := call c ret

/-! ### Running -/

/-- **Run a program against an environment**, from what happened before. -/
def run (env : Trace O → (c : C) → O c) : Prog O α → Trace O → α × Trace O
  | ret a, t => (a, t)
  | call c k, t => run env (k (env t c)) (⟨c, env t c⟩ :: t)

variable (env : Trace O → (c : C) → O c)

theorem run_trace (p : Prog O α) (t : Trace O) : ∃ new, (p.run env t).2 = new ++ t := by
  induction p generalizing t with
  | ret a => exact ⟨[], rfl⟩
  | call c k ih =>
    obtain ⟨new, hnew⟩ := ih (env t c) (⟨c, env t c⟩ :: t)
    exact ⟨new ++ [⟨c, env t c⟩], by rw [run, hnew, append_assoc]; rfl⟩

theorem run_bind (p : Prog O α) (f : α → Prog O β) (t : Trace O) :
    (p >>= f).run env t = (f (p.run env t).1).run env (p.run env t).2 := by
  change (bind p f).run env t = _
  induction p generalizing t with
  | ret a => rfl
  | call c k ih => exact ih (env t c) _

theorem run_foldlM_append (f : β → α → Prog O β) (l l' : List α) (b : β) (t : Trace O) :
    ((l ++ l').foldlM f b).run env t =
      (l'.foldlM f ((l.foldlM f b).run env t).1).run env ((l.foldlM f b).run env t).2 := by
  induction l generalizing b t with
  | nil => rfl
  | cons a l ih =>
    rw [cons_append, foldlM_cons, foldlM_cons, run_bind, run_bind, ih]

theorem run_answered (p : Prog O α) {t : Trace O}
    (h : Trace.Holds (fun t e => e.outcome = env t e.call) t) :
    Trace.Holds (fun t e => e.outcome = env t e.call) (p.run env t).2 := by
  induction p generalizing t with
  | ret a => exact h
  | call c k ih => exact ih (env t c) ⟨rfl, h⟩

/-! ### Weakest preconditions -/

variable {S : Trace O → Event O → Prop} {Q Q' : α → Trace O → Prop} {t : Trace O} {p : Prog O α}

/-- **The weakest precondition** of a program: whatever the outcomes, as long as they
meet `S`, the postcondition holds of the result and of the trace. -/
def wp (S : Trace O → Event O → Prop) (Q : α → Trace O → Prop) : Prog O α → Trace O → Prop
  | ret a, t => Q a t
  | call c k, t => ∀ o, S t ⟨c, o⟩ → wp S Q (k o) (⟨c, o⟩ :: t)

@[simp] theorem wp_pure (a : α) : (pure a : Prog O α).wp S Q t ↔ Q a t := Iff.rfl

@[simp] theorem wp_bind (p : Prog O α) (f : α → Prog O β) {Q : β → Trace O → Prop} :
    (p >>= f).wp S Q t ↔ p.wp S (fun a t' => (f a).wp S Q t') t := by
  change (bind p f).wp S Q t ↔ _
  induction p generalizing t with
  | ret a => exact Iff.rfl
  | call c k ih => exact forall_congr' fun o => imp_congr_right fun _ => ih o

theorem wp.of_imp {S' : Trace O → Event O → Prop} (h : p.wp S Q t) (hS : ∀ t e, S' t e → S t e) :
    p.wp S' Q t := by
  induction p generalizing t with
  | ret a => exact h
  | call c k ih => exact fun o ho => ih o (h o (hS _ _ ho))

theorem wp.mono (h : p.wp S Q t) (hQ : ∀ a t', Q a t' → Q' a t') : p.wp S Q' t := by
  induction p generalizing t with
  | ret a => exact hQ a t h
  | call c k ih => exact fun o ho => ih o (h o ho)

theorem wp.bind {f : α → Prog O β} {R : β → Trace O → Prop} (h : p.wp S Q t)
    (hf : ∀ a t', Q a t' → (f a).wp S R t') : (p >>= f).wp S R t :=
  (wp_bind p f).mpr (h.mono hf)

theorem wp_of_forall (h : ∀ a t', Q a t') (t : Trace O) : p.wp S Q t := by
  induction p generalizing t with
  | ret a => exact h a t
  | call c k ih => exact fun o _ => ih o _

theorem wp.and (h : p.wp S Q t) (h' : p.wp S Q' t) : p.wp S (fun a t' => Q a t' ∧ Q' a t') t := by
  induction p generalizing t with
  | ret a => exact ⟨h, h'⟩
  | call c k ih => exact fun o ho => ih o (h o ho) (h' o ho)

/-- **The loop rule**: an invariant of the elements already done, of the state and of the
trace, that holds at the start and is kept by every turn. -/
theorem wp_foldlM {f : β → α → Prog O β} {l : List α} {b : β}
    (I : List α → β → Trace O → Prop) (hinit : I [] b t)
    (hstep : ∀ done x rest b t, l = done ++ x :: rest → I done b t →
      (f b x).wp S (fun b' t' => I (done ++ [x]) b' t') t) :
    (l.foldlM f b).wp S (I l) t := by
  -- by induction on what is left, the part already done being free
  have h : ∀ (rest done : List α) (b : β) (t : Trace O), l = done ++ rest → I done b t →
      (rest.foldlM f b).wp S (I l) t := by
    intro rest
    induction rest with
    | nil =>
      intro done b t hl hI
      rw [append_nil] at hl
      exact hl ▸ hI
    | cons x rest ih =>
      intro done b t hl hI
      rw [foldlM_cons, wp_bind]
      refine (hstep done x rest b t hl hI).mono fun b' t' hI' => ?_
      exact ih (done ++ [x]) b' t' (by rw [hl, append_assoc]; rfl) hI'
  exact h l [] b t rfl hinit

/-! ### Footprints -/

/-- **A footprint**: the program makes calls that satisfy `A`, and no others. -/
def Only (A : C → Prop) : Prog O α → Prop
  | ret _ => True
  | call c k => A c ∧ ∀ o, Only A (k o)

section Footprint

variable {A : C → Prop}

theorem only_pure (a : α) : Only A (pure a : Prog O α) := trivial

theorem only_perform {c : C} (h : A c) : Only A (perform c : Prog O (O c)) := ⟨h, fun _ => trivial⟩

theorem Only.bind {f : α → Prog O β} (hp : Only A p) (hf : ∀ a, Only A (f a)) :
    Only A (p >>= f) := by
  change Only A (Prog.bind p f)
  induction p with
  | ret a => exact hf a
  | call c k ih => exact ⟨hp.1, fun o => ih o (hp.2 o)⟩

theorem only_foldlM {f : β → α → Prog O β} (h : ∀ b a, Only A (f b a)) (l : List α) (b : β) :
    Only A (l.foldlM f b) := by
  induction l generalizing b with
  | nil => exact only_pure b
  | cons a l ih =>
    exact (h b a).bind ih

theorem only_true (p : Prog O α) : Only (fun _ => True) p := by
  induction p with
  | ret a => trivial
  | call c k ih => exact ⟨trivial, ih⟩

/-- **What a footprint is good for**: a relation between traces that each of its calls
keeps, whatever the outcome, holds from the start of the program to its end. -/
theorem Only.wp {R : Trace O → Trace O → Prop} (hrefl : ∀ t, R t t)
    (hstep : ∀ t t' c o, A c → R t t' → R t (⟨c, o⟩ :: t')) (h : Only A p) (t : Trace O) :
    p.wp S (fun _ t' => R t t') t := by
  have hfrom : ∀ t', R t t' → p.wp S (fun _ => R t) t' := by
    induction p with
    | ret a => exact fun t' ht' => ht'
    | call c k ih => exact fun t' ht' o _ => ih o (h.2 o) _ (hstep t t' c o h.1 ht')
  exact hfrom t (hrefl t)

theorem wp_suffix (p : Prog O α) (t : Trace O) : p.wp S (fun _ t' => t <:+ t') t :=
  (only_true p).wp suffix_refl (fun _ _ _ _ _ h => h.trans (suffix_cons _ _)) t

theorem Only.wp_adds (h : Only A p) (t : Trace O) : p.wp S (fun _ t' => Trace.Adds A t t') t := by
  refine h.wp (fun t => ⟨[], rfl, by simp⟩) ?_ t
  rintro t t' c o hc ⟨new, rfl, hnew⟩
  exact ⟨⟨c, o⟩ :: new, rfl, forall_mem_cons.mpr ⟨hc, hnew⟩⟩

end Footprint

/-! ### Runs -/

/-- **From weakest preconditions to runs**: if every event of a run meets the assumption,
the postcondition holds at its end. -/
theorem wp.of_run (h : p.wp S Q t) (hS : Trace.Holds S (p.run env t).2) :
    Q (p.run env t).1 (p.run env t).2 := by
  induction p generalizing t with
  | ret a => exact h
  | call c k ih =>
    -- the event of this call is still in the trace of the whole run
    obtain ⟨new, hnew⟩ := run_trace env (k (env t c)) (⟨c, env t c⟩ :: t)
    have hS' : Trace.Holds S (new ++ ⟨c, env t c⟩ :: t) := hnew ▸ hS
    exact ih (env t c) (h (env t c) hS'.of_append.1) hS

theorem wp.of_run_answered (h : p.wp S Q t) (hS : ∀ t c, S t ⟨c, env t c⟩) :
    Q (p.run env t).1 (p.run env t).2 := by
  induction p generalizing t with
  | ret a => exact h
  | call c k ih => exact ih (env t c) (h (env t c) (hS t c))

end Prog

end Containers
