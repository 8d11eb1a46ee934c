import Mathlib.Data.List.AList
import Mathlib.Data.Rat.Floor
import Mathlib.Data.String.Basic

/-!
# Go values: maps, printed numbers, parsed integers

The pieces of Go's language and standard library that a shallow embedding needs and that Lean does
not have under the same contract.

* `GoMap` – a Go map, as an association list without repeated keys. The *order* of the list is the
  order in which one `range` over the map visits it: Go leaves that order open, so a statement about
  a program is a statement about every such list, and independence of the order is a theorem to
  prove and never a convention of the model.
* `fixed` – `fmt`'s `%.nf` verb, read on exact rationals: correct rounding, halves to even.
* `atoi` – `strconv.Atoi`: an optional sign and a non-empty run of decimal digits, refused outside
  the range of a 64-bit integer.
-/

namespace Containers.Go

open AList List

variable {cs : List Char} {acc n : ℕ}

/-! ### Maps -/

/-- **A Go map**: the list of its entries, in the order one `range` visits
them. -/
abbrev GoMap (κ α : Type) := AList fun _ : κ => α

namespace GoMap

variable {κ α : Type} [DecidableEq κ] {v : α}

def ofList (l : List (κ × α)) : GoMap κ α :=
  toAList (l.map fun e => (⟨e.1, e.2⟩ : Σ _ : κ, α))

/-- `m[k]`: the value stored under `k`, or the zero value of the element type
when there is none. -/
def index (m : GoMap κ α) (zero : α) (k : κ) : α := (m.lookup k).getD zero

theorem index_perm {m m' : GoMap κ α} (h : m.entries.Perm m'.entries) (zero : α) (k : κ) :
    m.index zero k = m'.index zero k := by
  rw [index, index, perm_lookup h]

section Entries

variable {m : GoMap κ α} {k k' : κ} {v v' : α}

theorem lookup_of_mem_entries (h : ⟨k, v⟩ ∈ m.entries) : m.lookup k = some v :=
  mem_lookup_iff.mpr h

theorem mem_entries_of_lookup (h : m.lookup k = some v) : ⟨k, v⟩ ∈ m.entries :=
  mem_lookup_iff.mp h

theorem lookup_insert_iff : (m.insert k v).lookup k' = some v' ↔
    k' = k ∧ v' = v ∨ k' ≠ k ∧ m.lookup k' = some v' := by
  rcases eq_or_ne k' k with rfl | hk
  · simp [eq_comm]
  · simp [hk]

theorem lookup_erase_iff : (m.erase k).lookup k' = some v ↔ k' ≠ k ∧ m.lookup k' = some v := by
  rcases eq_or_ne k' k with rfl | hk
  · simp [lookup_erase]
  · simp [hk]

end Entries

theorem mem_of_lookup_ofList {l : List (κ × α)} {k : κ} (h : (ofList l).lookup k = some v) :
    (k, v) ∈ l := by
  rw [ofList, lookup_to_alist] at h
  obtain ⟨e, he, heq⟩ := mem_map.mp (of_mem_dlookup h)
  cases heq
  exact he

theorem lookup_ofList_iff {l : List (κ × α)} {k : κ}
    (hl : ∀ k v v', (k, v) ∈ l → (k, v') ∈ l → v = v') :
    (ofList l).lookup k = some v ↔ (k, v) ∈ l := by
  refine ⟨mem_of_lookup_ofList, fun h => ?_⟩
  have hsome : ((ofList l).lookup k).isSome = true := by
    rw [ofList, lookup_to_alist, dlookup_isSome]
    exact mem_keys_of_mem (mem_map.mpr ⟨(k, v), h, rfl⟩)
  obtain ⟨v', hv'⟩ := Option.isSome_iff_exists.mp hsome
  rw [hv', hl k v' v (mem_of_lookup_ofList hv') h]

/-- **Storing under a key that is present** changes what that key reads and
nothing else – in particular not which keys are present. -/
theorem mem_insert_of_mem {m : GoMap κ α} {k k' : κ} (hk : k ∈ m) : k' ∈ m.insert k v ↔ k' ∈ m := by
  rw [mem_insert]
  constructor
  · rintro (rfl | h)
    · exact hk
    · exact h
  · exact Or.inr

section Collect

variable {β : Type} (key : β → κ) (val : β → α) (l : List β) (m : GoMap κ (List α)) (k : κ)

/-- **Collecting values under keys**: each key reads the values that came for it, in order. -/
theorem index_foldl_append :
    (l.foldl (fun m x => m.insert (key x) (m.index [] (key x) ++ [val x])) m).index [] k =
      m.index [] k ++ (l.filter fun x => key x = k).map val := by
  induction l generalizing m with
  | nil => simp
  | cons x l ih =>
    rw [foldl_cons, ih]
    by_cases hx : key x = k
    · subst hx
      simp [index]
    · simp [index, lookup_insert_ne (Ne.symm hx), hx]

theorem mem_foldl_append :
    k ∈ l.foldl (fun m x => m.insert (key x) (m.index [] (key x) ++ [val x])) m ↔
      k ∈ m ∨ ∃ x ∈ l, key x = k := by
  induction l generalizing m with
  | nil => simp
  | cons x l ih =>
    rw [foldl_cons, ih, mem_insert, exists_mem_cons_iff]
    tauto

end Collect

/-- How many values of a map satisfy `p`. -/
def count (p : α → Bool) (m : GoMap κ α) : ℕ := m.entries.countP fun e => p e.2

/-- **Storing under a key** takes the old value out of the count and the new one in. -/
theorem count_insert (p : α → Bool) (m : GoMap κ α) (k : κ) (v : α) :
    (count p (m.insert k v) : ℤ) =
      count p m - (if (m.lookup k).any p then 1 else 0) + if p v then 1 else 0 := by
  have herase : ∀ l : List (Σ _ : κ, α),
      l.countP (fun e => p e.2) =
        (l.kerase k).countP (fun e => p e.2) + if (l.dlookup k).any p then 1 else 0 := by
    intro l
    induction l with
    | nil => rfl
    | cons e l ih =>
      obtain ⟨k', v'⟩ := e
      by_cases hk : k = k'
      · subst hk
        rw [dlookup_cons_eq, countP_cons,
          kerase_cons_eq (s := (⟨k, v'⟩ : Σ _ : κ, α)) rfl]
        rfl
      · rw [kerase_cons_ne hk, dlookup_cons_ne _ _ hk, countP_cons, countP_cons,
          ih]
        omega
  have hold : count p m = (m.entries.kerase k).countP (fun e => p e.2) +
      if (m.lookup k).any p then 1 else 0 := herase m.entries
  have hnew : count p (m.insert k v) =
      (m.entries.kerase k).countP (fun e => p e.2) + if p v then 1 else 0 := by
    rw [count, entries_insert, countP_cons]
  rw [hold, hnew]
  push_cast
  ring

end GoMap

/-! ### Slices without some of their indices -/

section DropIdx

variable {α β : Type}

/-- The slice without the elements at the indices in `drop`. -/
def dropIdx (drop : List ℕ) (l : List α) : List α :=
  (l.zipIdx.filter fun x => x.2 ∉ drop).map (·.1)

theorem dropIdx_map (f : α → β) (drop : List ℕ) (l : List α) :
    dropIdx drop (l.map f) = (dropIdx drop l).map f := by
  rw [dropIdx, dropIdx, zipIdx_map, filter_map, map_map, map_map]
  rfl

theorem mem_dropIdx {drop : List ℕ} {l : List α} {x : α} :
    x ∈ dropIdx drop l ↔ ∃ i, i ∉ drop ∧ l[i]? = some x := by
  simp only [dropIdx, mem_map, mem_filter, decide_eq_true_eq,
    mem_zipIdx_iff_getElem?]
  constructor
  · rintro ⟨⟨y, i⟩, ⟨hy, hi⟩, rfl⟩
    exact ⟨i, hi, hy⟩
  · rintro ⟨i, hi, hx⟩
    exact ⟨(x, i), ⟨hx, hi⟩, rfl⟩

theorem dropIdx_sublist (drop : List ℕ) (l : List α) : (dropIdx drop l).Sublist l := by
  have h := (filter_sublist (l := l.zipIdx) (p := fun x => x.2 ∉ drop)).map Prod.fst
  rwa [zipIdx_map_fst] at h

end DropIdx

/-! ### Printed texts and numbers -/

/-- `fmt`'s `%q` verb, on a text without characters to escape. -/
def quoted (s : String) : String := "\"" ++ s ++ "\""

/-- Rounding a non-negative rational to the nearest natural number, halves to
even. -/
def roundHalfEven (x : ℚ) : ℕ :=
  let n := ⌊x⌋₊
  if x - n < 1 / 2 then n
  else if 1 / 2 < x - n then n + 1
  else if n % 2 = 0 then n
  else n + 1

/-- `fmt.Sprintf("%.nf", x)`. -/
def fixed (n : ℕ) (x : ℚ) : String :=
  let scaled := roundHalfEven (|x| * 10 ^ n)
  let frac := toString (scaled % 10 ^ n)
  (if x < 0 then "-" else "") ++ toString (scaled / 10 ^ n) ++ "." ++
    "".pushn '0' (n - frac.length) ++ frac

/-- **A natural number is printed in digits.** -/
theorem toList_toString_natCast (n : ℕ) : (toString (n : ℤ)).toList = Nat.toDigits 10 n :=
  (String.ofList_eq.mp rfl).symm

theorem toString_nat_inj {n' : ℕ} : toString n = toString n' ↔ n = n' := by
  refine ⟨fun h => ?_, fun h => h ▸ rfl⟩
  have hdigits : Nat.toDigits 10 n = Nat.toDigits 10 n' := by
    rw [← toList_toString_natCast, ← toList_toString_natCast]
    exact congrArg String.toList h
  rw [← Nat.ofDigitChars_ten_toDigits (n := n), hdigits, Nat.ofDigitChars_ten_toDigits]

theorem isDigit_of_mem_toString {n : ℤ} (hn : 0 ≤ n) {c : Char} (hc : c ∈ (toString n).toList) :
    c.isDigit = true := by
  obtain ⟨m, rfl⟩ := Int.eq_ofNat_of_zero_le hn
  rw [toList_toString_natCast] at hc
  exact Nat.isDigit_of_mem_toDigits (by omega) (by omega) hc

theorem eq_of_toString_eq {n n' : ℤ} (hn : 0 ≤ n) (hn' : 0 ≤ n')
    (h : (toString n).toList = (toString n').toList) : n = n' := by
  obtain ⟨m, rfl⟩ := Int.eq_ofNat_of_zero_le hn
  obtain ⟨m', rfl⟩ := Int.eq_ofNat_of_zero_le hn'
  rw [toList_toString_natCast, toList_toString_natCast] at h
  rw [← Nat.ofDigitChars_ten_toDigits (n := m), h, Nat.ofDigitChars_ten_toDigits]

/-! ### Parsed integers -/

/-- The value of a run of decimal digits read after `acc`, if every character is
one. -/
def digitsFrom (acc : ℕ) : List Char → Option ℕ
  | [] => some acc
  | c :: cs => if c.isDigit then digitsFrom (10 * acc + (c.toNat - '0'.toNat)) cs else none

/-- `strconv.ParseUint` without its range check: a non-empty run of decimal
digits. -/
def digits : List Char → Option ℕ
  | [] => none
  | cs => digitsFrom 0 cs

/-- `strconv.Atoi`, with `none` for its error. -/
def atoi (s : List Char) : Option ℤ :=
  match s with
  -- the negative range of a 64-bit integer reaches one further
  | '-' :: cs => (digits cs).bind fun n => if n ≤ 2 ^ 63 then some (-(n : ℤ)) else none
  | '+' :: cs => (digits cs).bind fun n => if n < 2 ^ 63 then some (n : ℤ) else none
  | cs => (digits cs).bind fun n => if n < 2 ^ 63 then some (n : ℤ) else none

theorem digitsFrom_eq_some :
    digitsFrom acc cs = some n ↔ (∀ c ∈ cs, c.isDigit = true) ∧ Nat.ofDigitChars 10 cs acc = n := by
  induction cs generalizing acc with
  | nil => simp [digitsFrom]
  | cons c cs ih =>
    rw [digitsFrom, forall_mem_cons]
    split_ifs with hc
    · rw [ih, and_assoc]
      exact (and_iff_right hc).symm
    · exact iff_of_false id fun h => hc h.1.1

theorem isDigit_of_digits (h : digits cs = some n) : ∀ c ∈ cs, c.isDigit = true := by
  rcases cs with _ | ⟨c, cs⟩
  · exact forall_mem_nil _
  · exact (digitsFrom_eq_some.mp h).1

/-- **Digits are read**, without a sign. -/
theorem atoi_of_digits (h : digits cs = some n) (hn : n < 2 ^ 63) : atoi cs = some (n : ℤ) := by
  have hsign : ∀ c, c.isDigit = false → ∀ cs', cs ≠ c :: cs' := fun c hc cs' heq => by
    have hhead := isDigit_of_digits h c (heq ▸ mem_cons_self)
    rw [hc] at hhead
    cases hhead
  rw [atoi]
  · rw [h, Option.bind_some, if_pos hn]
  · exact hsign '-' rfl
  · exact hsign '+' rfl

/-- **What is printed is read back.** -/
theorem atoi_toString (hn : n < 2 ^ 63) : atoi (toString (n : ℤ)).toList = some (n : ℤ) := by
  rw [toList_toString_natCast]
  refine atoi_of_digits ?_ hn
  rw [digits]
  · exact digitsFrom_eq_some.mpr
      ⟨fun c => Nat.isDigit_of_mem_toDigits (by omega) (by omega), Nat.ofDigitChars_ten_toDigits⟩
  · exact Nat.toDigits_ne_nil

/-- The loop of `strconv.ParseUint`: it ends at the first character that is no digit, with none, or
at the first digit with which the number does not fit 64 bits. -/
def scanFrom (acc : ℕ) : List Char → Option ℕ
  | [] => some acc
  | c :: cs =>
    if c.isDigit then
      let n := 10 * acc + (c.toNat - '0'.toNat)
      if n < 2 ^ 64 then scanFrom n cs else some n
    else none

/-- What `strconv.Atoi` returns beside its error: zero for a text that is not a number, and the
nearest 64-bit integer for one that does not fit. -/
def atoiValue (s : List Char) : ℤ :=
  let scan : List Char → Option ℕ := fun cs => if cs = [] then none else scanFrom 0 cs
  match s with
  | '-' :: cs => ((scan cs).map fun n : ℕ => max (-2 ^ 63) (-(n : ℤ))).getD 0
  | '+' :: cs => ((scan cs).map fun n : ℕ => min (2 ^ 63 - 1) (n : ℤ)).getD 0
  | cs => ((scan cs).map fun n : ℕ => min (2 ^ 63 - 1) (n : ℤ)).getD 0

theorem le_of_digitsFrom (h : digitsFrom acc cs = some n) : acc ≤ n := by
  induction cs generalizing acc with
  | nil => exact (Option.some.inj h).le
  | cons c cs ih =>
    rw [digitsFrom] at h
    split_ifs at h
    exact le_trans (by omega) (ih h)

theorem scanFrom_of_digitsFrom (h : digitsFrom acc cs = some n) (hn : n < 2 ^ 64) :
    scanFrom acc cs = some n := by
  induction cs generalizing acc with
  | nil => exact h
  | cons c cs ih =>
    rw [digitsFrom] at h
    split_ifs at h with hc
    rw [scanFrom, if_pos hc]
    rw [if_pos (lt_of_le_of_lt (le_of_digitsFrom h) hn)]
    exact ih h

/-- **Beside no error stands the number.** -/
theorem atoiValue_of_atoi {s : List Char} {n : ℤ} (h : atoi s = some n) : atoiValue s = n := by
  have hscan : ∀ {cs : List Char} {k : ℕ}, digits cs = some k → k < 2 ^ 64 →
      (if cs = [] then none else scanFrom 0 cs) = some k := by
    intro cs k hk hlt
    cases cs with
    | nil => cases hk
    | cons c cs => exact (if_neg (cons_ne_nil c cs)).trans (scanFrom_of_digitsFrom hk hlt)
  unfold atoi at h
  unfold atoiValue
  split at h <;> obtain ⟨k, hk, h⟩ := Option.bind_eq_some_iff.mp h <;> split_ifs at h with hle <;>
    cases h <;> dsimp only <;> rw [hscan hk (by omega), Option.map_some, Option.getD_some] <;> omega

/-! ### Machine integers -/

/-- The value of an integer expression kept in a 64-bit signed word. -/
def wrapInt64 (x : ℤ) : ℤ := x.bmod (2 ^ 64)

theorem wrapInt64_of_mem {x : ℤ} (hlo : -2 ^ 63 ≤ x) (hhi : x < 2 ^ 63) : wrapInt64 x = x :=
  Int.bmod_eq_of_le (by omega) (by omega)

theorem wrapInt64_add_one (x : ℤ) : wrapInt64 (wrapInt64 x + 1) = wrapInt64 (x + 1) :=
  Int.bmod_add_bmod

/-- The operator `%`: the remainder has the sign of the dividend, and there is none – the program
panics – when the divisor is zero. -/
def rem? (x y : ℤ) : Option ℤ := if y = 0 then none else some (x.tmod y)

end Containers.Go
