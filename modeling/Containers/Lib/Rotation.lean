import Mathlib.Data.List.Rotate
import Mathlib.Tactic

/-!
# Reading a list round and round

A rotation reads a list at a counter that only grows, modulo the length of the list (`turn`). Over
as many turns as the list is long it reads the list once, from wherever it starts
(`map_turn_eq_rotate`).

The list need not stay the same. As long as every turn sees the same elements, and the turns of one
*rotation* – each block of as many turns as there are elements – see them in the same order, `k`
rotations read every element `k` times (`count_turns`). Between rotations the order may change
freely.
-/

namespace Containers

open List

variable {α : Type}

/-- The element whose turn it is at the counter `c`. -/
def turn (l : List α) (d : α) (c : ℕ) : α := l.getD (c % l.length) d

/-- **One rotation reads the list once**, from wherever the counter stands. -/
theorem map_turn_eq_rotate (l : List α) (d : α) (c : ℕ) :
    ((range l.length).map fun i => turn l d (c + i)) = l.rotate c := by
  refine ext_getElem (by simp) fun i h _ => ?_
  have hi : i < l.length := by simpa using h
  have hlt : (c + i) % l.length < l.length := Nat.mod_lt _ (by omega)
  rw [getElem_map, getElem_range, getElem_rotate, turn,
    getD_eq_getElem?_getD, getElem?_eq_getElem hlt, Option.getD_some]
  simp only [Nat.add_comm c i]

/-- **`k` rotations read every element `k` times**, when the order of the elements
changes between rotations only. -/
theorem count_turns [DecidableEq α] {names : List α} {lists : ℕ → List α} {k : ℕ} (d : α) (c : ℕ)
    (hperm : ∀ i < names.length * k, (lists i).Perm names)
    (hsteady : ∀ i j, i < names.length * k → j < names.length * k →
      i / names.length = j / names.length → lists i = lists j) (x : α) :
    ((range (names.length * k)).map fun i => turn (lists i) d (c + i)).count x =
      k * names.count x := by
  induction k with
  | zero => simp
  | succ k ih =>
    have hgrow : names.length * k ≤ names.length * (k + 1) := by gcongr; omega
    -- the last rotation, read from where the others left the counter
    have hlast : ((range names.length).map fun i =>
        turn (lists (names.length * k + i)) d (c + (names.length * k + i))).count x =
        names.count x := by
      rcases Nat.eq_zero_or_pos names.length with hzero | hpos
      · simp [length_eq_zero_iff.mp hzero]
      · have hp := hperm (names.length * k) (by rw [Nat.mul_succ]; omega)
        have hsame : ∀ i ∈ range names.length,
            turn (lists (names.length * k + i)) d (c + (names.length * k + i)) =
              turn (lists (names.length * k)) d ((c + names.length * k) + i) := by
          intro i hi
          rw [mem_range] at hi
          have hblock :
              (names.length * k + i) / names.length = names.length * k / names.length := by
            rw [Nat.mul_add_div hpos, Nat.div_eq_of_lt hi, Nat.mul_div_cancel_left _ hpos,
              Nat.add_zero]
          rw [hsteady _ _ (by rw [Nat.mul_succ]; omega) (by rw [Nat.mul_succ]; omega) hblock,
            Nat.add_assoc]
        have hrotate := map_turn_eq_rotate (lists (names.length * k)) d (c + names.length * k)
        rw [hp.length_eq] at hrotate
        rw [map_congr_left hsame, hrotate, (rotate_perm _ _).count_eq, hp.count_eq]
    rw [Nat.mul_succ, range_add, map_append, count_append, map_map]
    simp only [Function.comp_def]
    rw [hlast, ih (fun i hi => hperm i (by omega))
      fun i j hi hj => hsteady i j (by omega) (by omega), Nat.succ_mul]

end Containers
