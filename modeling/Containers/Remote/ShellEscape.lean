import Containers.Go.Bytes
import Containers.Lib.Shell

/-!
# The quoter of the remote package

`pkg/remote` splices paths, names and arguments into command lines that the login shell of the
remote host reads again, each passed through `shellEscape` first. A faithful quoter turns every byte
string into text that the shell reads back as one word, the same bytes; this one does so for the
strings that are not empty and pure ASCII, and for no others (`lex_shellEscape_iff`):

* the empty string contains nothing that needs quotes, so it is left as it is – and an empty text is
  no word at all;
* the hand-written replacement loop appends `string(s[i])`, which encodes the *byte* as a code point
  of its own, so every byte beyond ASCII comes out as two.
-/

namespace Containers.Remote

open Go Shell

variable {s : Bytes}

def shellSafe (r : ℕ) : Bool :=
  (65 ≤ r ∧ r ≤ 90) ∨ (97 ≤ r ∧ r ≤ 122) ∨ (48 ≤ r ∧ r ≤ 57) ∨
    r = 95 ∨ r = 47 ∨ r = 46 ∨ r = 45

/-- `needsShellEscape`: some character of the string is not among them. -/
def needsShellEscape (s : Bytes) : Bool := (runes s).any fun r => !shellSafe r

/-- The loop of `replaceAll`, with `skip` bytes of the last match still to be passed
over. -/
def replaceAllFrom (old new : Bytes) : ℕ → Bytes → Bytes
  | _, [] => []
  | skip + 1, _ :: s => replaceAllFrom old new skip s
  | 0, b :: s =>
    if old.isPrefixOf (b :: s) then new ++ replaceAllFrom old new (old.length - 1) s
    else stringOfByte b ++ replaceAllFrom old new 0 s

/-- `replaceAll`. -/
def replaceAll (s old new : Bytes) : Bytes :=
  if old = new ∨ old = [] then s else replaceAllFrom old new 0 s

/-- `shellEscape`. -/
def shellEscape (s : Bytes) : Bytes :=
  if needsShellEscape s = false then s
  else utf8 "'" ++ replaceAll s (utf8 "'") (utf8 "'\\''") ++ utf8 "'"

/-! ### What is left as it is -/

theorem lt_of_shellSafe {r : ℕ} (h : shellSafe r = true) : r < 0x80 := by
  simp only [shellSafe, decide_eq_true_eq] at h
  omega

theorem ascii_of_not_needsShellEscape (h : needsShellEscape s = false) : ∀ b ∈ s, b < 0x80 := by
  intro b hb
  by_contra hge
  obtain ⟨r, hr, hle⟩ := exists_mem_runes_of_not_ascii ⟨b, hb, hge⟩
  have hsafe : shellSafe r = true := by
    rw [needsShellEscape, List.any_eq_false] at h
    simpa using h r hr
  exact absurd (lt_of_shellSafe hsafe) (not_lt.mpr hle)

theorem meaning_of_shellSafe {b : UInt8} (h : shellSafe b.toNat = true) :
    b ≠ 0 ∧ meaning b = .ordinary := by
  have hall : ∀ n < 0x80, shellSafe n = true →
      UInt8.ofNat n ≠ 0 ∧ meaning (UInt8.ofNat n) = .ordinary := by decide
  have hb := hall b.toNat (lt_of_shellSafe h) h
  rwa [UInt8.ofNat_toNat] at hb

/-- **A string that needs no quotes reads to itself** – if there is anything to read. -/
theorem readsWord_of_not_needsShellEscape (hs : s ≠ []) (h : needsShellEscape s = false) :
    ReadsWord s ⟨s, false⟩ := by
  refine (Plain.of_forall hs fun b hb => decide_eq_true (meaning_of_shellSafe ?_)).readsWord
  rw [needsShellEscape, runes_of_ascii (ascii_of_not_needsShellEscape h),
    List.any_eq_false] at h
  simpa using h b.toNat (List.mem_map_of_mem hb)

/-! ### What is quoted -/

def escapeByte (b : UInt8) : Bytes := if b = 39 then utf8 "'\\''" else stringOfByte b

theorem replaceAll_quote (s : Bytes) :
    replaceAll s (utf8 "'") (utf8 "'\\''") = s.flatMap escapeByte := by
  have hloop : replaceAllFrom (utf8 "'") (utf8 "'\\''") 0 s = s.flatMap escapeByte := by
    induction s with
    | nil => rfl
    | cons b s ih =>
      have hmatch : (utf8 "'").isPrefixOf (b :: s) = true ↔ b = 39 := by
        rw [show utf8 "'" = [39] from rfl]
        simp only [List.isPrefixOf, Bool.and_true, beq_iff_eq]
        exact eq_comm
      by_cases hb : b = 39
      · rw [replaceAllFrom, if_pos (hmatch.mpr hb), List.flatMap_cons, escapeByte, if_pos hb]
        exact congrArg _ ih
      · rw [replaceAllFrom, if_neg (mt hmatch.mp hb), List.flatMap_cons, escapeByte, if_neg hb,
          ih]
  rw [replaceAll, if_neg (by decide), hloop]

theorem mem_stringOfByte {b b' : UInt8} (h0 : b ≠ 0) (h39 : b ≠ 39) (h : b' ∈ stringOfByte b) :
    b' ≠ 0 ∧ b' ≠ 39 := by
  unfold stringOfByte at h
  split_ifs at h with hascii
  · rw [List.mem_singleton.mp h]
    exact ⟨h0, h39⟩
  · have hlt : b.toNat < 256 := b.toNat_lt
    -- both bytes have their top bit set
    have hge : 0x80 ≤ b'.toNat := by
      simp only [List.mem_cons, List.not_mem_nil, or_false] at h
      rcases h with rfl | rfl
      · simp only [UInt8.toNat_add, UInt8.toNat_div, UInt8.reduceToNat]
        omega
      · simp only [UInt8.toNat_add, UInt8.toNat_mod, UInt8.reduceToNat]
        omega
    constructor
    · rintro rfl
      exact absurd hge (by decide)
    · rintro rfl
      exact absurd hge (by decide)

/-- **Between the quotes** each byte stands for its `string`. -/
theorem encodes_escapeByte {b : UInt8} (h0 : b ≠ 0) : Encodes (escapeByte b) (stringOfByte b) := by
  unfold escapeByte
  split_ifs with hquote
  · rw [hquote]
    exact encodes_escapedQuote
  · exact encodes_self fun b' => mem_stringOfByte h0 hquote

/-- **What the shell reads** of a string that was quoted. -/
theorem lex_shellEscape_of_needs (h0 : 0 ∉ s) (h : needsShellEscape s = true) :
    lex (shellEscape s) = .ok [.word (s.flatMap stringOfByte) true] := by
  have hcode : shellEscape s = quoteWith (s.flatMap escapeByte) := by
    rw [shellEscape, h, replaceAll_quote]
    rfl
  have henc : Encodes (s.flatMap escapeByte) (s.flatMap stringOfByte) :=
    Encodes.flatMap fun b hb => encodes_escapeByte fun hzero => h0 (hzero ▸ hb)
  rw [hcode]
  exact (readsWord_quoteWith henc).lex

theorem length_flatMap_stringOfByte (s : Bytes) :
    (s.flatMap stringOfByte).length = s.length + s.countP fun b => ¬ b < 0x80 := by
  induction s with
  | nil => rfl
  | cons b s ih =>
    rw [List.flatMap_cons, List.length_append, ih, List.countP_cons]
    by_cases hb : b < 0x80
    · simp [stringOfByte, hb]
      omega
    · simp [stringOfByte, hb]
      omega

theorem flatMap_stringOfByte_eq_iff : s.flatMap stringOfByte = s ↔ ∀ b ∈ s, b < 0x80 := by
  constructor
  · intro h
    have hlength := length_flatMap_stringOfByte s
    rw [h] at hlength
    simpa using hlength
  · intro h
    rw [List.flatMap_congr fun b hb => show stringOfByte b = [b] from if_pos (h b hb),
      List.flatMap_singleton']

/-- **When the quoter is faithful**: the shell reads `shellEscape s` as the one word `s` if
and only if `s` is not empty and all its bytes are ASCII. -/
theorem lex_shellEscape_iff (s : Bytes) (h0 : 0 ∉ s) :
    (∃ q, lex (shellEscape s) = .ok [.word s q]) ↔ s ≠ [] ∧ ∀ b ∈ s, b < 0x80 := by
  by_cases hneeds : needsShellEscape s = true
  · have hne : s ≠ [] := by
      rintro rfl
      exact absurd hneeds (by decide)
    rw [lex_shellEscape_of_needs h0 hneeds, ← flatMap_stringOfByte_eq_iff]
    simp [hne]
  · have hneeds : needsShellEscape s = false := by simpa using hneeds
    have hsame : shellEscape s = s := by rw [shellEscape, if_pos hneeds]
    rw [hsame]
    constructor
    · rintro ⟨q, hq⟩
      refine ⟨?_, ascii_of_not_needsShellEscape hneeds⟩
      rintro rfl
      cases hq
    · rintro ⟨hne, -⟩
      exact ⟨false, (readsWord_of_not_needsShellEscape hne hneeds).lex⟩

/-- A path with a blank and a quote in it. -/
theorem lex_shellEscape_path :
    0 ∉ utf8 "/srv/it's here" ∧
      ∃ q, lex (shellEscape (utf8 "/srv/it's here")) = .ok [.word (utf8 "/srv/it's here") q] :=
  ⟨by decide +kernel,
    (lex_shellEscape_iff (utf8 "/srv/it's here") (by decide +kernel)).mpr (by decide +kernel)⟩

/-- **The quoter is not faithful** to the empty string, which it leaves without any quotes,
so that the shell reads no word, nor to a string beyond ASCII: of `é`, the two bytes `C3 A9`,
the shell reads the four bytes `C3 83 C2 A9`. -/
theorem not_lex_shellEscape :
    lex (shellEscape []) = .ok [] ∧
      lex (shellEscape [0xC3, 0xA9]) = .ok [.word [0xC3, 0x83, 0xC2, 0xA9] true] ∧
      ¬ ∀ s : Bytes, 0 ∉ s → ∃ q, lex (shellEscape s) = .ok [.word s q] := by
  refine ⟨by decide, by decide, fun h => ?_⟩
  obtain ⟨q, hq⟩ := h [] (by decide)
  cases hq

end Containers.Remote
