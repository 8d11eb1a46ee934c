import Containers.Go.Values
import Mathlib.Data.List.DropRight

/-!
# Go texts: white space and case

* `isSpace`, `trimSpace` – `unicode.IsSpace` and `strings.TrimSpace`.
* `Casing` – what `unicode.ToLower` makes of a character. Of its table only the ASCII part is fixed
  here, so what is proved of a program that lowers its input holds of every edition of Unicode.
-/

namespace Containers.Go

/-! ### White space -/

/-- `unicode.IsSpace`: the characters with the property White_Space. -/
def isSpace (c : Char) : Bool :=
  decide (c = ' ' ∨ 0x09 ≤ c.toNat ∧ c.toNat ≤ 0x0D ∨ c.toNat = 0x85 ∨ c.toNat = 0xA0 ∨
    c.toNat = 0x1680 ∨ 0x2000 ≤ c.toNat ∧ c.toNat ≤ 0x200A ∨ c.toNat = 0x2028 ∨ c.toNat = 0x2029 ∨
    c.toNat = 0x202F ∨ c.toNat = 0x205F ∨ c.toNat = 0x3000)

/-- `strings.TrimSpace`. -/
def trimSpace (s : List Char) : List Char := (s.dropWhile isSpace).rdropWhile isSpace

/-! ### Case -/

/-- **What `unicode.ToLower` makes of a character.** -/
structure Casing where
  lower : Char → Char
  /-- On ASCII there are no two ways about it. -/
  lower_ascii : ∀ c : Char, c.toNat < 0x80 → lower c = c.toLower

namespace Casing

def ascii : Casing := ⟨Char.toLower, fun _ _ => rfl⟩

/-- `strings.ToLower`. -/
def toLower (L : Casing) (s : List Char) : List Char := s.map L.lower

end Casing

end Containers.Go
