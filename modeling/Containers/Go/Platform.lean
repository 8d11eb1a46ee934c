import Mathlib.Data.List.Sort
import Mathlib.Data.Prod.Lex
import Mathlib.Data.Rat.Floor
import Mathlib.Order.Defs.Unbundled
import Mathlib.Tactic

/-!
# What Go leaves to its implementation, and how a program selects

Two operations of Go have a result that the language documents only in part.

* Converting a floating-point number to `uint64` truncates it – when the result fits; outside the
  range of the type the value is implementation-dependent.
* `sort.Slice` permutes its argument so that no element is *less* than one before it – when the
  comparison is a strict weak order; it is not stable, and where it puts equivalent elements is
  nobody's promise.

A `Platform` is any pair of functions meeting that documentation, and a program is modelled over an
arbitrary one: what is proved of it then holds whatever the compiler and the sorting routine do with
the freedom they have.

The second half is the use programs make of it. A program *selects* by sorting and taking the first
element (`firstOf`), or by keeping the best element so far (`runningBest`). When the comparison is
the order of a key (`ByKey`), both return an element of least key (`IsBest`), and when the key
separates the elements the selection does not see the order of the slice (`IsBest.eq_of_perm`).
-/

namespace Containers.Go

open List

/-! ### The platform -/

/-- **A platform**: the operations whose result Go documents in part, with what
it does document. -/
structure Platform where
  /-- The conversion `uint64(x)`. -/
  uint64Of : ℚ → UInt64
  /-- Inside the range of the type, the fraction is discarded. -/
  uint64Of_toNat : ∀ x : ℚ, 0 ≤ x → x < 2 ^ 64 → (uint64Of x).toNat = ⌊x⌋₊
  /-- `sort.Slice(l, less)`, with `less` on the elements rather than on the
  indices. -/
  sortSlice : {α : Type} → (α → α → Bool) → List α → List α
  /-- Sorting rearranges. -/
  sortSlice_perm : ∀ {α : Type} (less : α → α → Bool) (l : List α), (sortSlice less l).Perm l
  /-- After sorting by a strict weak order of the elements, none is less than an
  earlier one. -/
  sortSlice_pairwise : ∀ {α : Type} (less : α → α → Bool) (l : List α),
    IsStrictWeakOrder { x // x ∈ l } (fun a b => less a b = true) →
      (sortSlice less l).Pairwise fun a b => less b a = false

namespace Platform

variable (P : Platform) {α : Type}

/-- **The conversion never rounds up**, in range or out of it: out of range the
number is above everything the type can hold. -/
theorem uint64Of_le {x : ℚ} (hx : 0 ≤ x) : ((P.uint64Of x).toNat : ℚ) ≤ x := by
  by_cases hlt : x < 2 ^ 64
  · rw [P.uint64Of_toNat x hx hlt]
    exact Nat.floor_le hx
  · have hnat : (P.uint64Of x).toNat < 2 ^ 64 := (P.uint64Of x).toNat_lt
    have hcast : ((P.uint64Of x).toNat : ℚ) < 2 ^ 64 := by exact_mod_cast hnat
    exact le_of_lt (lt_of_lt_of_le hcast (not_lt.mp hlt))

/-- `sort.Slice` followed by taking element `0`, absent when the slice is
empty. -/
def firstOf {α : Type} (less : α → α → Bool) (l : List α) : Option α :=
  (P.sortSlice less l).head?

theorem firstOf_nil (less : α → α → Bool) : P.firstOf less [] = none := by
  rw [firstOf, (P.sortSlice_perm less []).eq_nil]
  rfl

theorem firstOf_eq_none_iff {less : α → α → Bool} {l : List α} :
    P.firstOf less l = none ↔ l = [] := by
  rw [firstOf, head?_eq_none_iff]
  constructor
  · intro h
    have hp := P.sortSlice_perm less l
    rw [h] at hp
    exact hp.symm.eq_nil
  · rintro rfl
    exact (P.sortSlice_perm less []).eq_nil

/-- Insertion sort by the weak order a comparison denies backwards. -/
def insertionSlice {α : Type} (less : α → α → Bool) (l : List α) : List α :=
  l.insertionSort fun a b => less b a = false

theorem insertionSlice_pairwise_of (less : α → α → Bool) (l : List α)
    (h : IsStrictWeakOrder α (fun a b => less a b = true)) :
    (insertionSlice less l).Pairwise fun a b => less b a = false := by
  have htrans : ∀ a b c : α, less b a = false → less c b = false → less c a = false := by
    intro a b c hba hcb
    by_contra hca
    rw [Bool.not_eq_false] at hca
    -- `c` is below `a`, so `a` and `b` cannot be equivalent, nor `b` and `c`
    by_cases hab : less a b = true
    · exact absurd (h.trans c a b hca hab) (by simp [hcb])
    · by_cases hbc : less b c = true
      · exact absurd (h.trans b c a hbc hca) (by simp [hba])
      · exact (h.incomp_trans a b c ⟨hab, by simp [hba]⟩ ⟨hbc, by simp [hcb]⟩).2 hca
  have htot : ∀ a b : α, less b a = false ∨ less a b = false := by
    intro a b
    by_contra hcon
    rw [not_or, Bool.not_eq_false, Bool.not_eq_false] at hcon
    exact h.irrefl a (h.trans a b a hcon.2 hcon.1)
  have : IsTrans α fun a b => less b a = false := ⟨htrans⟩
  have : Std.Total fun a b : α => less b a = false := ⟨htot⟩
  exact pairwise_insertionSort (fun a b => less b a = false) l

theorem insertionSlice_pairwise (less : α → α → Bool) (l : List α)
    (h : IsStrictWeakOrder { x // x ∈ l } (fun a b => less a b = true)) :
    (insertionSlice less l).Pairwise fun a b => less b a = false := by
  have hmap : (insertionSlice (fun a b : { x // x ∈ l } => less a b) l.attach).map Subtype.val =
      insertionSlice less l := by
    have hsort := map_insertionSort (fun a b : { x // x ∈ l } => less b a = false)
      (fun a b => less b a = false) Subtype.val l.attach fun _ _ _ _ => Iff.rfl
    rwa [attach_map_subtype_val] at hsort
  rw [← hmap, pairwise_map]
  exact insertionSlice_pairwise_of _ _ h

/-- **A platform exists**: truncation modulo `2 ^ 64` and insertion sort. -/
def reference : Platform where
  uint64Of x := UInt64.ofNat ⌊x⌋₊
  uint64Of_toNat x hx hlt := by
    have hfloor : ⌊x⌋₊ < 2 ^ 64 := (Nat.floor_lt hx).mpr (by exact_mod_cast hlt)
    exact UInt64.toNat_ofNat_of_lt' hfloor
  sortSlice := insertionSlice
  sortSlice_perm less l := perm_insertionSort _ l
  sortSlice_pairwise := insertionSlice_pairwise

end Platform

/-! ### Comparisons by a key -/

section Selection

variable {α κ : Type} [LinearOrder κ] {less : α → α → Bool} {key : α → κ} {l l' : List α} {x y : α}

/-- **Comparing by a key**: `less` is the strict order of the keys. -/
def ByKey (less : α → α → Bool) (key : α → κ) : Prop :=
  ∀ a b, less a b = true ↔ key a < key b

theorem ByKey.isStrictWeakOrder (h : ByKey less key) :
    IsStrictWeakOrder α (fun a b => less a b = true) where
  irrefl a ha := lt_irrefl _ ((h a a).mp ha)
  trans a b c hab hbc := (h a c).mpr (lt_trans ((h a b).mp hab) ((h b c).mp hbc))
  incomp_trans a b c hab hbc := by
    simp only [h a b, h b a, h b c, h c b, h a c, h c a, not_lt] at *
    exact ⟨le_trans hbc.1 hab.1, le_trans hab.2 hbc.2⟩

/-- **A best element of a slice**: one of least key. -/
def IsBest (key : α → κ) (l : List α) (x : α) : Prop :=
  x ∈ l ∧ ∀ y ∈ l, key x ≤ key y

/-- **The best element does not depend on the order of the slice**, when the key
separates the elements. -/
theorem IsBest.eq_of_perm (hx : IsBest key l x) (hy : IsBest key l' y) (hp : l.Perm l')
    (hinj : ∀ a ∈ l, ∀ b ∈ l, key a = key b → a = b) : x = y := by
  have hyl : y ∈ l := hp.mem_iff.mpr hy.1
  refine hinj x hx.1 y hyl (le_antisymm (hx.2 y hyl) (hy.2 x (hp.mem_iff.mp hx.1)))

theorem Platform.isBest_firstOf (P : Platform) (h : ByKey less key)
    (hx : P.firstOf less l = some x) : IsBest key l x := by
  have hperm := P.sortSlice_perm less l
  have hmem : ByKey (fun a b : { x // x ∈ l } => less a b) fun a => key a := fun a b => h a b
  have hsorted := P.sortSlice_pairwise less l hmem.isStrictWeakOrder
  obtain ⟨rest, hrest⟩ := head?_eq_some_iff.mp hx
  rw [hrest] at hperm hsorted
  refine ⟨hperm.mem_iff.mp mem_cons_self, fun y hy => ?_⟩
  rcases mem_cons.mp (hperm.mem_iff.mpr hy) with rfl | hmem
  · exact le_refl _
  · have hless : less y x = false := (pairwise_cons.mp hsorted).1 y hmem
    rw [← not_lt, ← h y x, hless]
    simp

/-- **Sorting and taking the first element is order-independent**, when the key
separates the elements. -/
theorem Platform.firstOf_perm (P : Platform) (h : ByKey less key) (hp : l.Perm l')
    (hinj : ∀ a ∈ l, ∀ b ∈ l, key a = key b → a = b) : P.firstOf less l = P.firstOf less l' := by
  cases hx : P.firstOf less l with
  | none =>
    rw [P.firstOf_eq_none_iff] at hx
    subst hx
    rw [hp.symm.eq_nil, P.firstOf_nil]
  | some x =>
    cases hy : P.firstOf less l' with
    | none =>
      rw [P.firstOf_eq_none_iff] at hy
      subst hy
      rw [hp.eq_nil, P.firstOf_nil] at hx
      exact absurd hx (by simp)
    | some y =>
      rw [(P.isBest_firstOf h hx).eq_of_perm (P.isBest_firstOf h hy) hp hinj]

/-! ### The running best -/

/-- One turn of a selection loop: keep the element at hand when there is no best
one yet, or when it beats the best one. -/
def keepBest (less : α → α → Bool) (best : Option α) (x : α) : Option α :=
  match best with
  | none => some x
  | some b => if less x b then some x else some b

/-- **The selection loop**: walk the slice, keeping the best element so far. -/
def runningBest (less : α → α → Bool) (l : List α) : Option α :=
  l.foldl (keepBest less) none

/-- The loop invariant: started from a best element, the loop ends on an element
that is that one or later, and that nothing seen beats. -/
theorem foldl_keepBest (h : ByKey less key) (l : List α) (b : α) :
    ∃ x, l.foldl (keepBest less) (some b) = some x ∧ IsBest key (b :: l) x := by
  induction l generalizing b with
  | nil => exact ⟨b, rfl, by simp [IsBest]⟩
  | cons a l ih =>
    by_cases hab : less a b = true
    · obtain ⟨x, hx, hmem, hmin⟩ := ih a
      refine ⟨x, by simpa [keepBest, hab] using hx, mem_cons_of_mem _ hmem, fun y hy => ?_⟩
      rcases mem_cons.mp hy with rfl | hy
      · exact le_trans (hmin a mem_cons_self) (le_of_lt ((h a y).mp hab))
      · exact hmin y hy
    · obtain ⟨x, hx, hmem, hmin⟩ := ih b
      refine ⟨x, by simpa [keepBest, hab] using hx, ?_, fun y hy => ?_⟩
      · rcases mem_cons.mp hmem with rfl | hmem
        · exact mem_cons_self
        · exact mem_cons_of_mem _ (mem_cons_of_mem _ hmem)
      · rcases mem_cons.mp hy with rfl | hy
        · exact hmin y mem_cons_self
        rcases mem_cons.mp hy with rfl | hy
        · exact le_trans (hmin b mem_cons_self) (not_lt.mp fun hlt => hab ((h y b).mpr hlt))
        · exact hmin y (mem_cons_of_mem _ hy)

theorem isBest_runningBest (h : ByKey less key) (hx : runningBest less l = some x) :
    IsBest key l x := by
  cases l with
  | nil => exact absurd hx (by simp [runningBest])
  | cons a l =>
    obtain ⟨y, hy, hbest⟩ := foldl_keepBest h l a
    have hrun : runningBest less (a :: l) = some y := hy
    rw [hrun, Option.some_inj] at hx
    exact hx ▸ hbest

theorem runningBest_eq_none_iff (h : ByKey less key) : runningBest less l = none ↔ l = [] := by
  cases l with
  | nil => simp [runningBest]
  | cons a l =>
    obtain ⟨y, hy, -⟩ := foldl_keepBest h l a
    have hrun : runningBest less (a :: l) = some y := hy
    simp [hrun]

/-- **The selection loop is order-independent**, when the key separates the
elements. -/
theorem runningBest_perm (h : ByKey less key) (hp : l.Perm l')
    (hinj : ∀ a ∈ l, ∀ b ∈ l, key a = key b → a = b) :
    runningBest less l = runningBest less l' := by
  cases hx : runningBest less l with
  | none =>
    rw [runningBest_eq_none_iff h] at hx
    subst hx
    rw [hp.symm.eq_nil]
    rfl
  | some x =>
    cases hy : runningBest less l' with
    | none =>
      rw [runningBest_eq_none_iff h] at hy
      subst hy
      rw [hp.eq_nil] at hx
      exact absurd hx (by simp [runningBest])
    | some y =>
      rw [(isBest_runningBest h hx).eq_of_perm (isBest_runningBest h hy) hp hinj]

/-! ### The first that passes a test -/

/-- **Taking the first element that passes a test is order-independent**, when at
most one value passes it. -/
theorem find?_perm {test : α → Bool} (hp : l.Perm l')
    (huniq : ∀ a ∈ l, ∀ b ∈ l, test a = true → test b = true → a = b) :
    l.find? test = l'.find? test := by
  cases hx : l.find? test with
  | none =>
    rw [find?_eq_none] at hx
    exact (find?_eq_none.mpr fun y hy => hx y (hp.mem_iff.mpr hy)).symm
  | some x =>
    have hxl := mem_of_find?_eq_some hx
    cases hy : l'.find? test with
    | none =>
      exact absurd (find?_some hx) (find?_eq_none.mp hy x (hp.mem_iff.mp hxl))
    | some y =>
      have hyl := hp.mem_iff.mpr (mem_of_find?_eq_some hy)
      rw [huniq x hxl y hyl (find?_some hx) (find?_some hy)]

end Selection

end Containers.Go
