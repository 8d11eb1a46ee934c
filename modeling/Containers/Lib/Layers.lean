import Mathlib.Data.Set.Finite.Basic
import Mathlib.Logic.Relation
import Mathlib.Order.Bounds.Basic
import Mathlib.Order.WellFoundedSet

/-!
# Layers of a finite relation

What it takes to order things by what they rest on. `r x y` reads *`x` rests on `y`*.

* A finite, non-empty set in which everything rests on something of the set contains a circle
  (`exists_transGen_self_of_finite`): what a program that finds nothing free to take next has found.
* The *height* of an element is the length of the longest chain below it (`Height`). It is
  determined by the heights one step below: an element with a chain of length `k`, all of whose
  immediate successors have heights less than `k`, has height `k` (`Height.of_forall_lt`). An
  element with a height is on no circle, as a circle has chains of every length
  (`Height.not_transGen_self`).
-/

namespace Containers.Layers

open Relation

variable {α : Type} {r : α → α → Prop} {x y : α} {j k : ℕ}

/-- **A finite set in which everything rests on something contains a circle.** -/
theorem exists_transGen_self_of_finite {W : Set α} (hfinite : W.Finite) (hne : W.Nonempty)
    (hnext : ∀ x ∈ W, ∃ y ∈ W, TransGen r x y) : ∃ x, TransGen r x x := by
  by_contra hacyclic
  rw [not_exists] at hacyclic
  -- without a circle, going down is well founded on a finite set
  have : IsStrictOrder α fun y x => TransGen r x y :=
    { irrefl := hacyclic, trans := fun _ _ _ hab hbc => hbc.trans hab }
  obtain ⟨x₀, hx₀⟩ := hne
  refine (hfinite.wellFoundedOn (r := fun y x => TransGen r x y)).induction
    (P := fun _ => False) hx₀ fun x hx ih => ?_
  obtain ⟨y, hy, hxy⟩ := hnext x hx
  exact ih y hy hxy

/-! ### Chains and heights -/

/-- There is a chain of `k` steps down from `x`. -/
def HasChain (r : α → α → Prop) (x : α) (k : ℕ) : Prop :=
  ∃ l : List α, l.length = k ∧ (x :: l).IsChain r

/-- **The height of `x`**: the length of the longest chain down from it. -/
def Height (r : α → α → Prop) (x : α) (k : ℕ) : Prop := IsGreatest { j | HasChain r x j } k

theorem hasChain_zero (x : α) : HasChain r x 0 := ⟨[], rfl, .singleton x⟩

theorem hasChain_succ_iff : HasChain r x (k + 1) ↔ ∃ y, r x y ∧ HasChain r y k := by
  constructor
  · rintro ⟨_ | ⟨y, l⟩, hlen, hchain⟩
    · simp at hlen
    · rw [List.isChain_cons_cons] at hchain
      exact ⟨y, hchain.1, l, by simpa using hlen, hchain.2⟩
  · rintro ⟨y, hxy, l, rfl, hchain⟩
    exact ⟨y :: l, rfl, List.isChain_cons_cons.mpr ⟨hxy, hchain⟩⟩

theorem HasChain.mono (h : HasChain r x k) (hjk : j ≤ k) : HasChain r x j := by
  induction k generalizing x j with
  | zero => rwa [Nat.le_zero.mp hjk]
  | succ k ih =>
    rcases j with _ | j
    · exact hasChain_zero x
    · obtain ⟨y, hxy, hy⟩ := hasChain_succ_iff.mp h
      exact hasChain_succ_iff.mpr ⟨y, hxy, ih hy (by omega)⟩

theorem HasChain.of_transGen (hxy : TransGen r x y) (h : HasChain r y k) :
    HasChain r x (k + 1) := by
  induction hxy using TransGen.head_induction_on with
  | single hab => exact hasChain_succ_iff.mpr ⟨_, hab, h⟩
  | head hab _ ih => exact hasChain_succ_iff.mpr ⟨_, hab, ih.mono (Nat.le_succ k)⟩

/-- **Heights are computed one step at a time.** -/
theorem Height.of_forall_lt (hchain : HasChain r x k)
    (hlt : ∀ y, r x y → ∃ j < k, Height r y j) : Height r x k := by
  refine ⟨hchain, ?_⟩
  rintro (_ | j) hj
  · exact Nat.zero_le k
  · obtain ⟨y, hxy, hy⟩ := hasChain_succ_iff.mp hj
    obtain ⟨i, hik, hi⟩ := hlt y hxy
    have hji : j ≤ i := hi.2 hy
    omega

theorem Height.lt_of_rel (hx : Height r x k) (hxy : r x y) (hy : Height r y j) : j < k :=
  hx.2 (hasChain_succ_iff.mpr ⟨y, hxy, hy.1⟩)

/-- **An element with a height is on no circle.** -/
theorem Height.not_transGen_self (h : Height r x k) : ¬TransGen r x x := by
  intro hcycle
  have hk : k + 1 ≤ k := h.2 (h.1.of_transGen hcycle)
  omega

end Containers.Layers
