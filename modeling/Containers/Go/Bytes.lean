import Mathlib.Data.String.Basic
import Mathlib.Tactic.Common

/-!
# Go strings, byte by byte

A Go string is a sequence of bytes, of which nothing says that it is valid UTF-8. Where a program
only compares and joins its strings the rest of this development takes them to be Lean strings;
where it takes them apart, or where they come from outside, they are `Bytes`.

* `utf8` – the bytes of a text, which is what a Go string literal is.
* `runes` – what `range` over a string yields: the characters of its valid UTF-8 and the replacement
  character, one byte at a time, for the rest. A byte that is not ASCII never yields an ASCII
  character (`exists_mem_runes_of_not_ascii`), and a string that is ASCII yields its own bytes
  (`runes_of_ascii`).
* `stringOfByte` – the conversion `string(b)` of a byte, which reads the byte as a *code point*:
  beyond ASCII it is two bytes long.
* `toLowerAscii` – `strings.ToLower`, on the ASCII letters.
-/

namespace Containers.Go

open List UInt8

variable {c : Char} {b : UInt8} {hi lo : ℕ}

/-- **A Go string**: any sequence of bytes. -/
abbrev Bytes := List UInt8

variable {s : Bytes}

def utf8 (s : String) : Bytes := s.toList.flatMap String.utf8EncodeChar

@[simp] theorem utf8_append (s t : String) : utf8 (s ++ t) = utf8 s ++ utf8 t := by
  rw [utf8, String.toList_append, flatMap_append, utf8, utf8]

theorem utf8EncodeChar_of_ascii (h : c.toNat < 0x80) :
    String.utf8EncodeChar c = [ofNat c.toNat] := by
  have hc : c.val.toNat ≤ 127 := Nat.lt_succ_iff.mp h
  exact if_pos hc

/-! ### Ranging over a string -/

/-- What a leading byte asks of the bytes after it: the length of the sequence and the range
of its second byte; `none` for a byte that begins no character beyond ASCII. -/
def leading (b : ℕ) : Option (ℕ × ℕ × ℕ) :=
  if 0xC2 ≤ b ∧ b ≤ 0xDF then some (2, 0x80, 0xBF)
  else if b = 0xE0 then some (3, 0xA0, 0xBF)
  else if b = 0xED then some (3, 0x80, 0x9F)
  else if 0xE1 ≤ b ∧ b ≤ 0xEF then some (3, 0x80, 0xBF)
  else if b = 0xF0 then some (4, 0x90, 0xBF)
  else if 0xF1 ≤ b ∧ b ≤ 0xF3 then some (4, 0x80, 0xBF)
  else if b = 0xF4 then some (4, 0x80, 0x8F)
  else none

/-- The replacement character, which stands for a byte that is not UTF-8. -/
def runeError : ℕ := 0xFFFD

def continues (b : ℕ) : Bool := 0x80 ≤ b ∧ b ≤ 0xBF

/-- `utf8.DecodeRuneInString`: the first character of `b :: rest` and how many bytes it
takes. -/
def decodeRune (b : UInt8) (rest : Bytes) : ℕ × ℕ :=
  let s0 := b.toNat
  if s0 < 0x80 then (s0, 1)
  else match leading s0, rest.map UInt8.toNat with
    | some (2, lo, hi), s1 :: _ =>
      if lo ≤ s1 ∧ s1 ≤ hi then (s0 % 32 * 64 + s1 % 64, 2) else (runeError, 1)
    | some (3, lo, hi), s1 :: s2 :: _ =>
      if lo ≤ s1 ∧ s1 ≤ hi ∧ continues s2 then
        (s0 % 16 * 4096 + s1 % 64 * 64 + s2 % 64, 3)
      else (runeError, 1)
    | some (4, lo, hi), s1 :: s2 :: s3 :: _ =>
      if lo ≤ s1 ∧ s1 ≤ hi ∧ continues s2 ∧ continues s3 then
        (s0 % 8 * 262144 + s1 % 64 * 4096 + s2 % 64 * 64 + s3 % 64, 4)
      else (runeError, 1)
    | _, _ => (runeError, 1)

/-- The characters of a string of which the first `skip` bytes belong to a character that
was read already. -/
def runesFrom : ℕ → Bytes → List ℕ
  | _, [] => []
  | skip + 1, _ :: rest => runesFrom skip rest
  | 0, b :: rest => (decodeRune b rest).1 :: runesFrom ((decodeRune b rest).2 - 1) rest

/-- **`range` over a string**: the characters it yields. -/
def runes (s : Bytes) : List ℕ := runesFrom 0 s

theorem decodeRune_of_ascii (h : b < 0x80) (rest : Bytes) : decodeRune b rest = (b.toNat, 1) := by
  have hb : b.toNat < 0x80 := h
  simp [decodeRune, hb]

theorem of_leading_two {b : ℕ} (h : leading b = some (2, lo, hi)) : 0xC2 ≤ b ∧ b ≤ 0xDF := by
  unfold leading at h
  split_ifs at h <;> simp_all

theorem of_leading_three {b : ℕ} (h : leading b = some (3, lo, hi)) :
    0xE0 ≤ b ∧ b ≤ 0xEF ∧ hi ≤ 0xBF ∧ (b = 0xE0 → 0xA0 ≤ lo) := by
  unfold leading at h
  split_ifs at h <;> simp at h <;> omega

theorem of_leading_four {b : ℕ} (h : leading b = some (4, lo, hi)) :
    0xF0 ≤ b ∧ b ≤ 0xF4 ∧ hi ≤ 0xBF ∧ (b = 0xF0 → 0x90 ≤ lo) := by
  unfold leading at h
  split_ifs at h <;> simp at h <;> omega

/-- **Beyond ASCII nothing decodes to ASCII**: of a character only its shortest form is
accepted. -/
theorem le_decodeRune_of_not_ascii (h : ¬ b < 0x80) (rest : Bytes) :
    0x80 ≤ (decodeRune b rest).1 := by
  have hb : ¬ b.toNat < 0x80 := h
  simp only [decodeRune, hb, if_false]
  split
  · rename_i lo hi s1 _ hlead _
    have hrange := of_leading_two hlead
    split_ifs with haccept
    · show 0x80 ≤ b.toNat % 32 * 64 + s1 % 64
      omega
    · decide
  · rename_i lo hi s1 s2 _ hlead _
    have hrange := of_leading_three hlead
    split_ifs with haccept
    · show 0x80 ≤ b.toNat % 16 * 4096 + s1 % 64 * 64 + s2 % 64
      omega
    · decide
  · rename_i lo hi s1 s2 s3 _ hlead _
    have hrange := of_leading_four hlead
    split_ifs with haccept
    · show 0x80 ≤ b.toNat % 8 * 262144 + s1 % 64 * 4096 + s2 % 64 * 64 + s3 % 64
      omega
    · decide
  · decide

theorem runes_of_ascii (h : ∀ b ∈ s, b < 0x80) : runes s = s.map toNat := by
  induction s with
  | nil => rfl
  | cons b s ih =>
    rw [runes, runesFrom, decodeRune_of_ascii (h b mem_cons_self), map_cons,
      ← ih fun b' hb' => h b' (mem_cons_of_mem b hb')]
    rfl

/-- **A byte beyond ASCII is seen**: some character of the string is beyond ASCII too. -/
theorem exists_mem_runes_of_not_ascii (h : ∃ b ∈ s, ¬ b < 0x80) : ∃ r ∈ runes s, 0x80 ≤ r := by
  induction s with
  | nil => simp at h
  | cons b s ih =>
    by_cases hb : b < 0x80
    · -- the first byte is a character of its own, so the other one is further down
      have hrest : ∃ b ∈ s, ¬ b < 0x80 := by
        obtain ⟨b', hb', hge⟩ := h
        rcases mem_cons.mp hb' with rfl | hb'
        · exact absurd hb hge
        · exact ⟨b', hb', hge⟩
      obtain ⟨r, hr, hle⟩ := ih hrest
      refine ⟨r, ?_, hle⟩
      rw [runes, runesFrom, decodeRune_of_ascii hb]
      exact mem_cons_of_mem _ hr
    · refine ⟨(decodeRune b s).1, ?_, le_decodeRune_of_not_ascii hb s⟩
      exact mem_cons_self

/-! ### Conversions -/

/-- `string(b)` of a byte `b`: the UTF-8 encoding of the code point `b`. -/
def stringOfByte (b : UInt8) : Bytes :=
  if b < 0x80 then [b] else [0xC0 + b / 64, 0x80 + b % 64]

/-- `strings.ToLower` on the ASCII letters. A character beyond ASCII is left alone. -/
def toLowerAscii (s : Bytes) : Bytes := s.map fun b => if 65 ≤ b ∧ b ≤ 90 then b + 32 else b

/-- `fmt`'s `%d` verb. -/
def decimal (n : ℤ) : Bytes := utf8 (toString n)

/-- **A positive number is printed in digits**, and there is at least one. -/
theorem decimal_digits {n : ℤ} (h : 0 < n) : decimal n ≠ [] ∧ ∀ b ∈ decimal n, 48 ≤ b ∧ b ≤ 57 := by
  obtain ⟨m, rfl⟩ := Int.eq_ofNat_of_zero_le h.le
  have htext : (toString (m : ℤ)).toList = Nat.toDigits 10 m := String.ofList_eq.mp rfl |>.symm
  -- every character of the text is one of the ten digits, hence a byte of its own
  have hdigit : ∀ c ∈ Nat.toDigits 10 m, 48 ≤ c.toNat ∧ c.toNat ≤ 57 := by
    intro c hc
    have := Nat.isDigit_of_mem_toDigits (by omega) (by omega) hc
    rw [Char.isDigit, Bool.and_eq_true, decide_eq_true_iff, decide_eq_true_iff] at this
    exact this
  rw [decimal, utf8, htext]
  constructor
  · obtain ⟨c, cs, hcs⟩ := exists_cons_of_ne_nil (Nat.toDigits_ne_nil (n := m) (b := 10))
    have hc := hdigit c (hcs ▸ mem_cons_self)
    rw [hcs, flatMap_cons, utf8EncodeChar_of_ascii (by omega)]
    exact cons_ne_nil _ _
  · intro b hb
    obtain ⟨c, hc, hb⟩ := mem_flatMap.mp hb
    obtain ⟨hlo, hhi⟩ := hdigit c hc
    rw [utf8EncodeChar_of_ascii (by omega), mem_singleton] at hb
    subst hb
    have hnat : (ofNat c.toNat).toNat = c.toNat := by
      rw [toNat_ofNat']
      omega
    constructor
    · rw [le_iff_toNat_le, hnat]
      exact hlo
    · rw [le_iff_toNat_le, hnat]
      exact hhi

end Containers.Go
