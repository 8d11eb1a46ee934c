import Mathlib.Data.List.Basic
import Mathlib.Tactic

/-!
# Loops over lists

One element among others, counting in lists, and loops over lists: loops that can fail, loops
that treat an initial segment differently from the rest, and loops whose turn for `x` concerns
what is known of `x` alone.
-/

namespace Containers.Loops

open List

variable {α β ε : Type} {l : List α} {a : α} {f : β → α → Except ε β} {A B : List α}

/-! ### One element among others -/

theorem perm_filterMap_middle {f : α → Option β} {b : β} (h : f a = some b) :
    ((A ++ a :: B).filterMap f).Perm (b :: (A ++ B).filterMap f) := by
  have hmiddle : (A ++ a :: B).Perm (a :: (A ++ B)) := perm_middle
  have hperm := hmiddle.filterMap f
  rwa [filterMap_cons_some h] at hperm

theorem filterMap_middle {f : α → Option β} (h : f a = none) :
    (A ++ a :: B).filterMap f = (A ++ B).filterMap f := by
  simp [h]

/-! ### Counting -/

theorem countP_or_of_disjoint {p q : α → Bool} (h : ∀ a ∈ l, p a = true → q a = false) :
    l.countP (fun a => p a || q a) = l.countP p + l.countP q := by
  induction l with
  | nil => rfl
  | cons a l ih =>
    have ih' := ih fun b hb => h b (mem_cons_of_mem a hb)
    rcases hp : p a <;> rcases hq : q a <;> simp_all <;> omega

theorem sum_map_count [DecidableEq α] {L : List α} (hL : L.Nodup) (l : List α) :
    (L.map fun a => l.count a).sum = l.countP (· ∈ L) := by
  induction L with
  | nil => simp
  | cons a L ih =>
    rw [nodup_cons] at hL
    have hsplit : l.countP (· ∈ a :: L) = l.countP (fun b => b == a || decide (b ∈ L)) := by
      refine countP_congr fun b _ => ?_
      simp
    have hdisjoint : ∀ b ∈ l, (b == a) = true → decide (b ∈ L) = false := by
      intro b _ hb
      rw [eq_of_beq hb]
      simpa using hL.1
    rw [map_cons, sum_cons, ih hL.2, hsplit, countP_or_of_disjoint hdisjoint]
    rfl

theorem sum_map_zipIdx {g : α → ℕ} {j : ℕ} (k : ℕ) (h : l[j]? = some a) :
    ((l.zipIdx k).map fun x => if x.2 = k + j then g x.1 else 0).sum = g a := by
  induction l generalizing j k with
  | nil => simp at h
  | cons b l ih =>
    rw [zipIdx_cons, map_cons, sum_cons]
    rcases j with _ | j
    · -- the indices that follow are larger
      have hrest : ((l.zipIdx (k + 1)).map fun x => if x.2 = k + 0 then g x.1 else 0).sum = 0 := by
        refine sum_eq_zero fun n hn => ?_
        obtain ⟨x, hx, rfl⟩ := mem_map.mp hn
        have hle := le_snd_of_mem_zipIdx hx
        rw [if_neg (by omega)]
      simp_all
    · have hj : l[j]? = some a := by simpa using h
      have hrest := ih (k + 1) hj
      rw [show k + 1 + j = k + (j + 1) by omega] at hrest
      rw [hrest, if_neg (by show ¬k = k + (j + 1); omega), Nat.zero_add]

/-! ### Loops -/

theorem filterMap_getElem?_range (l : List α) :
    ((range l.length).filterMap fun i => l[i]?) = l := by
  induction l with
  | nil => rfl
  | cons a l ih =>
    rw [length_cons, range_succ_eq_map, filterMap_cons, filterMap_map]
    exact congrArg (a :: ·) ih

theorem foldlM_eq_ok {g : β → α → β}
    (h : ∀ a ∈ l, ∀ b, f b a = .ok (g b a)) (b : β) : l.foldlM f b = .ok (l.foldl g b) := by
  induction l generalizing b with
  | nil => rfl
  | cons a l ih =>
    rw [foldlM_cons, h a mem_cons_self]
    exact ih (fun a' ha' => h a' (mem_cons_of_mem a ha')) (g b a)

theorem foldlM_eq_error (ha : a ∈ l) (h : ∀ b, ∃ e, f b a = .error e)
    (b : β) : ∃ e, l.foldlM f b = .error e := by
  induction l generalizing b with
  | nil => cases ha
  | cons a' l ih =>
    rw [foldlM_cons]
    rcases hf : f b a' with e | b'
    · exact ⟨e, rfl⟩
    · rcases mem_cons.mp ha with rfl | ha
      · obtain ⟨e, he⟩ := h b
        rw [hf] at he
        cases he
      · exact ih ha b'

theorem foldl_zipIdx_lt (f g : β → α → β) (l : List α) (k i : ℕ) (b : β) :
    (l.zipIdx i).foldl (fun b x => if x.2 < k then f b x.1 else g b x.1) b =
      (l.drop (k - i)).foldl g ((l.take (k - i)).foldl f b) := by
  induction l generalizing i b with
  | nil => simp
  | cons a l ih =>
    rw [zipIdx_cons, foldl_cons]
    by_cases hi : i < k
    · rw [show k - i = k - (i + 1) + 1 by omega, drop_succ_cons, take_succ_cons,
        foldl_cons, if_pos hi, ih]
    · rw [if_neg hi, ih, show k - i = 0 by omega, show k - (i + 1) = 0 by omega]
      rfl

/-- **A loop that works pointwise**: if the turn for `x` turns what is known of `x` into
`step x` of it and leaves what is known of the others, then the loop over a list without repetitions
does so for all its elements. -/
theorem foldl_pointwise [DecidableEq α] {γ : Type} (I : (α → γ) → β → Prop) (op : β → α → β)
    (step : α → γ → γ)
    (hop : ∀ known b, ∀ x ∈ l, I known b → I (Function.update known x (step x (known x))) (op b x))
    (hl : l.Nodup) {known : α → γ} {b : β} (h : I known b) :
    I (fun x => if x ∈ l then step x (known x) else known x) (l.foldl op b) := by
  induction l generalizing known b with
  | nil => simpa using h
  | cons a l ih =>
    rw [nodup_cons] at hl
    have hrest := ih (fun known b x hx => hop known b x (mem_cons_of_mem a hx)) hl.2
      (hop known b a mem_cons_self h)
    rw [foldl_cons]
    convert hrest using 1
    funext x
    by_cases hx : x = a
    · subst hx
      simp [hl.1]
    · simp [hx]

end Containers.Loops
