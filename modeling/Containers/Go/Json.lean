import Mathlib.Data.List.Sort
import Containers.Go.Bytes
import Containers.Go.Values

/-!
# Maps as JSON objects

`encoding/json` on maps with string keys, as far as the modelled packages use it. An object is
written with its keys in order, and read back entry by entry, so that the last entry of a key is the
one that counts. The texts of an object are UTF-8: a byte of a string that is not is written as the
replacement character, and two strings may be the same afterwards.

* `mem_marshalMap` – what is written.
* `mem_of_lookup_unmarshalMap` – what is read back was written.
* `lookup_unmarshalMap_marshalMap` – a map with valid keys is read back as it was.
-/

namespace Containers.Go

open List

/-- What becomes of a string in a JSON text: each byte that is not UTF-8 is replaced. -/
def toValidUtf8 (s : Bytes) : Bytes :=
  (runes s).flatMap fun r => String.utf8EncodeChar (Char.ofNat r)

def IsValidUtf8 (s : Bytes) : Prop := toValidUtf8 s = s

instance (s : Bytes) : Decidable (IsValidUtf8 s) := inferInstanceAs (Decidable (_ = _))

variable {α β : Type} {m : GoMap Bytes α} {f : α → β} {k : Bytes}

/-- `json.Marshal` of a map: its entries, in the order of the keys. -/
def marshalMap (f : α → β) (m : GoMap Bytes α) : List (Bytes × β) :=
  (m.keys.insertionSort (· ≤ ·)).filterMap fun k =>
    (m.lookup k).map fun v => (toValidUtf8 k, f v)

/-- `json.Unmarshal` into an empty map: the last entry of a key counts. -/
def unmarshalMap (l : List (Bytes × α)) : GoMap Bytes α := GoMap.ofList l.reverse

theorem mem_marshalMap {e : Bytes × β} :
    e ∈ marshalMap f m ↔ ∃ k v, m.lookup k = some v ∧ e = (toValidUtf8 k, f v) := by
  rw [marshalMap, mem_filterMap]
  constructor
  · rintro ⟨k, -, he⟩
    obtain ⟨v, hv, rfl⟩ := Option.map_eq_some_iff.mp he
    exact ⟨k, v, hv, rfl⟩
  · rintro ⟨k, v, hv, rfl⟩
    refine ⟨k, ?_, by rw [hv]; rfl⟩
    rw [mem_insertionSort]
    exact AList.lookup_isSome.mp (by rw [hv]; rfl)

theorem mem_of_lookup_unmarshalMap {l : List (Bytes × α)} {v : α}
    (h : (unmarshalMap l).lookup k = some v) : (k, v) ∈ l :=
  mem_reverse.mp (GoMap.mem_of_lookup_ofList h)

theorem lookup_unmarshalMap_iff {l : List (Bytes × α)} {v : α}
    (hl : ∀ k v v', (k, v) ∈ l → (k, v') ∈ l → v = v') :
    (unmarshalMap l).lookup k = some v ↔ (k, v) ∈ l := by
  rw [unmarshalMap, GoMap.lookup_ofList_iff fun k v v' hv hv' =>
    hl k v v' (mem_reverse.mp hv) (mem_reverse.mp hv'), mem_reverse]

/-- **A map with valid keys is read back as it was**, up to what becomes of its values. -/
theorem lookup_unmarshalMap_marshalMap (hm : ∀ k ∈ m, IsValidUtf8 k) (k : Bytes) :
    (unmarshalMap (marshalMap f m)).lookup k = (m.lookup k).map f := by
  have hkey : ∀ k v, m.lookup k = some v → toValidUtf8 k = k := fun k v hv =>
    hm k (AList.lookup_isSome.mp (by rw [hv]; rfl))
  have hmem : ∀ k b, (k, b) ∈ marshalMap f m ↔ ∃ v, m.lookup k = some v ∧ f v = b := by
    intro k b
    rw [mem_marshalMap]
    constructor
    · rintro ⟨k', v, hv, heq⟩
      obtain ⟨rfl, rfl⟩ := Prod.mk.inj heq
      exact ⟨v, by rw [hkey k' v hv, hv], rfl⟩
    · rintro ⟨v, hv, rfl⟩
      exact ⟨k, v, hv, by rw [hkey k v hv]⟩
  have hfunctional : ∀ k b b', (k, b) ∈ marshalMap f m → (k, b') ∈ marshalMap f m → b = b' := by
    intro k b b' hb hb'
    obtain ⟨v, hv, rfl⟩ := (hmem k b).mp hb
    obtain ⟨v', hv', rfl⟩ := (hmem k b').mp hb'
    rw [hv] at hv'
    cases hv'
    rfl
  refine Option.ext fun b => ?_
  rw [lookup_unmarshalMap_iff hfunctional, hmem, Option.map_eq_some_iff]

end Containers.Go
