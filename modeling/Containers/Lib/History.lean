import Mathlib.Data.List.Basic

/-!
# What came before what

A system that keeps a list of what has happened, oldest first, can be asked for the order of things.
`Containers.Before x y H` says that the history `H` has an `x` and, later, a `y`; a property of runs
such as *no `y` comes after an `x`* is then an invariant like any other, and `before_append` says
what there is to check when something is added.

* `not_before_of_cut` – two things that are kept apart by a third and a fourth: what is not after
  `r` comes before what is not before `b`, when `r` comes before `b`.
* `before_filterMap` – the order of what is read off a history.
-/

namespace Containers

open List

variable {α β : Type} {x y r b : α} {H K : List α}

/-- **The history has an `x` and, later, a `y`.** -/
def Before (x y : α) (H : List α) : Prop := [x, y].Sublist H

theorem not_before_nil : ¬Before x y [] := fun h => by cases h

theorem Before.mem_left (h : Before x y H) : x ∈ H := h.subset mem_cons_self

theorem Before.mem_right (h : Before x y H) : y ∈ H :=
  h.subset (mem_cons_of_mem x mem_cons_self)

theorem before_cons : Before x y (r :: H) ↔ x = r ∧ y ∈ H ∨ Before x y H := by
  rw [Before, sublist_cons_iff]
  constructor
  · rintro (h | ⟨l, heq, hl⟩)
    · exact .inr h
    · cases heq
      exact .inl ⟨rfl, singleton_sublist.mp hl⟩
  · rintro (⟨rfl, hy⟩ | h)
    · exact .inr ⟨[y], rfl, singleton_sublist.mpr hy⟩
    · exact .inl h

/-- **What is added comes after what was there.** -/
theorem before_append : Before x y (H ++ K) ↔ Before x y H ∨ (x ∈ H ∧ y ∈ K) ∨ Before x y K := by
  induction H with
  | nil => simp [not_before_nil]
  | cons r H ih =>
    rw [cons_append, before_cons, before_cons, ih, mem_append, mem_cons,
      and_or_left, or_and_right]
    exact iff_of_eq (by ac_rfl)

theorem not_before_singleton : ¬Before x y [r] := by
  rw [before_cons]
  rintro (⟨-, hy⟩ | h)
  · cases hy
  · exact not_before_nil h

theorem before_concat : Before x y (H ++ [r]) ↔ Before x y H ∨ x ∈ H ∧ y = r := by
  rw [before_append, mem_singleton, or_iff_left not_before_singleton]

theorem Before.of_append (h : Before x y (H ++ K)) (hy : y ∉ K) : Before x y H := by
  rcases before_append.mp h with h | ⟨-, hmem⟩ | h
  · exact h
  · exact absurd hmem hy
  · exact absurd h.mem_right hy

theorem Before.append (h : Before x y H) (K : List α) : Before x y (H ++ K) :=
  before_append.mpr (.inl h)

/-- **Two things that are kept apart**: `x` is not after `r`, `y` is not before `b`, and `r` comes
before `b`. -/
theorem not_before_of_cut (hcut : Before r b H) (hx : ¬Before r x H) (hy : ¬Before y b H) :
    ¬Before y x H := by
  obtain ⟨A, B, rfl, hr, hb⟩ := cons_sublist_iff.mp hcut
  rw [singleton_sublist] at hb
  have hyA : y ∉ A := fun hmem => hy (before_append.mpr (.inr (.inl ⟨hmem, hb⟩)))
  have hxB : x ∉ B := fun hmem => hx (before_append.mpr (.inr (.inl ⟨hr, hmem⟩)))
  intro h
  rcases before_append.mp h with h | ⟨hmem, -⟩ | h
  · exact hyA h.mem_left
  · exact hyA hmem
  · exact hxB h.mem_right

/-- **The order of what is read off a history.** -/
theorem before_filterMap {f : α → Option β} {a c : β} :
    Before a c (H.filterMap f) ↔ ∃ x y, f x = some a ∧ f y = some c ∧ Before x y H := by
  constructor
  · intro h
    obtain ⟨l, hl, heq⟩ := sublist_filterMap_iff.mp h
    obtain ⟨A, x, l, rfl, -, hx, heq⟩ := filterMap_eq_cons_iff.mp heq.symm
    obtain ⟨B, y, C, rfl, -, hy, -⟩ := filterMap_eq_cons_iff.mp heq
    refine ⟨x, y, hx, hy, Sublist.trans ?_ hl⟩
    simp
  · rintro ⟨x, y, hx, hy, h⟩
    have hread := Sublist.filterMap f h
    rwa [filterMap_cons_some hx, filterMap_cons_some hy] at hread

end Containers
