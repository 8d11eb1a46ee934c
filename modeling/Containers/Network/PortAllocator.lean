import Containers.Go.Values
import Containers.Lib.Rotation

/-!
# The allocator of local ports

`PortAllocator` of `pkg/network/port_allocator.go`: a range of ports, the ports that are reserved –
by `Allocate`, which looks for a free one from a cursor on, or by `MarkAllocated`, for ports that
somebody else has chosen, in the range or not – and the cursor. Whether a port can be listened on is
asked of the machine, which may answer anything. The arithmetic is that of 64-bit words.

A call of `Allocate` reads the range round and round: its turns go through the ports of the range
once each, from wherever the cursor stands (`candidates_eq`). From this it is sound and complete
(`allocator_sound_complete`), as long as the distance that the turns count does not leave the 64
bits; beyond that it can fail with every port free (`allocate_wraps`). The description of an
allocation is kept, its time is not.
-/

namespace Containers.Network

open Go List AList

/-- The allocator of local ports: a range, what is reserved, and where to look next. -/
structure PortAllocator where
  start : ℤ
  stop : ℤ
  allocated : GoMap ℤ String := ∅
  next : ℤ

/-- `NewPortAllocator`. -/
def newPortAllocator (start stop : ℤ) : PortAllocator :=
  { start := start, stop := stop, next := start }

namespace PortAllocator

variable (a : PortAllocator) {a' : PortAllocator}

/-- The number of turns of a call, when it is positive, and what the turns divide by. -/
def rangeSize : ℤ := wrapInt64 (a.stop - a.start)

/-- The port that is tried in turn `i`; none, if the turn divides by zero. -/
def port? (i : ℕ) : Option ℤ :=
  (rem? (wrapInt64 (a.next - a.start + i)) a.rangeSize).map fun r => wrapInt64 (a.start + r)

def candidates : List ℤ := (range a.rangeSize.toNat).filterMap a.port?

/-- **`Allocate`**: the first port that is neither reserved nor in use. -/
def allocate (available : ℤ → Bool) (description : String) : Except String ℤ × PortAllocator :=
  match a.candidates.find? fun port => !decide (port ∈ a.allocated) && available port with
  | none =>
    (.error ("no available ports in range " ++ toString a.start ++ "-" ++ toString a.stop), a)
  | some port =>
    (.ok port, { a with
      allocated := a.allocated.insert port description
      next := if wrapInt64 (port + 1) ≥ a.stop then a.start else wrapInt64 (port + 1) })

/-- `Release`. -/
def release (port : ℤ) : PortAllocator := { a with allocated := a.allocated.erase port }

/-- `MarkAllocated`. -/
def markAllocated (port : ℤ) (description : String) : PortAllocator :=
  { a with allocated := a.allocated.insert port description }

/-- `ReleaseAll`. -/
def releaseAll : PortAllocator := { a with allocated := ∅, next := a.start }

/-- What is called of an allocator, with what the machine answers. -/
inductive Op where
  | allocate (available : ℤ → Bool) (description : String)
  | release (port : ℤ)
  | markAllocated (port : ℤ) (description : String)
  | releaseAll

def Op.act : Op → PortAllocator
  | .allocate available description => (a.allocate available description).2
  | .release port => a.release port
  | .markAllocated port description => a.markAllocated port description
  | .releaseAll => a.releaseAll

/-! ### The turns of a call -/

/-- The range is no larger than its turns can count: their sums stay in the 64 bits. -/
structure Countable (start stop : ℤ) : Prop where
  start_ge : -2 ^ 63 ≤ start
  stop_lt : stop < 2 ^ 63
  ge : -2 ^ 63 ≤ stop - start
  le : stop - start ≤ 2 ^ 62

/-- What is kept of an allocator of this range: a cursor within the range, if there is a port in
it. -/
structure Ranged (start stop : ℤ) : Prop where
  start_eq : a.start = start
  stop_eq : a.stop = stop
  le_next : start < stop → start ≤ a.next
  next_lt : start < stop → a.next < stop

def ports (start stop : ℤ) : List ℤ :=
  (range (stop - start).toNat).map fun k : ℕ => start + (k : ℤ)

variable {a} {start stop port : ℤ}

theorem mem_ports : port ∈ ports start stop ↔ start ≤ port ∧ port < stop := by
  rw [ports, mem_map]
  constructor
  · rintro ⟨k, hk, rfl⟩
    rw [mem_range] at hk
    omega
  · rintro ⟨hle, hlt⟩
    refine ⟨(port - start).toNat, mem_range.mpr (by omega), by omega⟩

theorem nodup_ports : (ports start stop).Nodup := by
  refine nodup_range.map fun i j hij => ?_
  omega

theorem rangeSize_eq (hrange : Countable start stop) (ha : a.Ranged start stop) :
    a.rangeSize = stop - start := by
  rw [rangeSize, ha.start_eq, ha.stop_eq]
  exact wrapInt64_of_mem hrange.ge (lt_of_le_of_lt hrange.le (by norm_num))

/-- **A turn of the loop**: it divides by the size of the range, which is not zero, and reads the
range at the cursor. -/
theorem port?_eq (hrange : Countable start stop) (ha : a.Ranged start stop) {i : ℕ}
    (hi : i < a.rangeSize.toNat) :
    a.port? i = some (turn (ports start stop) start ((a.next - start).toNat + i)) := by
  rw [rangeSize_eq hrange ha] at hi
  have hlt : start < stop := by omega
  have hcursor := ha.le_next hlt
  have hcursor' := ha.next_lt hlt
  have hsize := hrange.le
  have hsum : wrapInt64 (a.next - start + i) = a.next - start + i :=
    wrapInt64_of_mem (by omega) (by omega)
  obtain ⟨n, hn⟩ : ∃ n : ℕ, (stop - start) = n := ⟨(stop - start).toNat, by omega⟩
  obtain ⟨c, hc⟩ : ∃ c : ℕ, a.next - start = c := ⟨(a.next - start).toNat, by omega⟩
  have hpos : 0 < n := by omega
  have hmod : (c + i) % n < n := Nat.mod_lt _ hpos
  have hlength : (ports start stop).length = n := by
    rw [ports, length_map, length_range, hn, Int.toNat_natCast]
  have hturn : turn (ports start stop) start (c + i) = start + ((c + i) % n : ℕ) := by
    have hget : ((c + i) % (ports start stop).length) < (ports start stop).length := by
      rwa [hlength]
    rw [turn, getD_eq_getElem?_getD, getElem?_eq_getElem hget]
    simp [ports, hn]
  have hrem :
      rem? (wrapInt64 (a.next - start + i)) (stop - start) = some (((c + i) % n : ℕ) : ℤ) := by
    rw [hsum, hn, hc, rem?, if_neg (by omega)]
    norm_cast
  have hstart := hrange.start_ge
  have hstop := hrange.stop_lt
  rw [port?, rangeSize_eq hrange ha, ha.start_eq, hrem, Option.map_some, hc,
    Int.toNat_natCast, hturn, wrapInt64_of_mem (by omega) (by omega)]

/-- **The turns of a call go through the range once**, from the cursor on. -/
theorem candidates_eq (hrange : Countable start stop) (ha : a.Ranged start stop) :
    a.candidates = (ports start stop).rotate (a.next - start).toNat := by
  have hlength : (ports start stop).length = a.rangeSize.toNat := by
    rw [ports, length_map, length_range, rangeSize_eq hrange ha]
  rw [← map_turn_eq_rotate (ports start stop) start, hlength, ← filterMap_eq_map]
  exact filterMap_congr fun i hi => port?_eq hrange ha (mem_range.mp hi)

theorem mem_candidates (hrange : Countable start stop) (ha : a.Ranged start stop) :
    port ∈ a.candidates ↔ start ≤ port ∧ port < stop := by
  rw [candidates_eq hrange ha, mem_rotate, mem_ports]

/-! ### Every state of an allocator -/

theorem ranged_new : (newPortAllocator start stop).Ranged start stop :=
  ⟨rfl, rfl, fun _ => le_refl start, fun h => h⟩

/-- **What `Allocate` does when it succeeds.** -/
theorem allocate_eq_ok {available : ℤ → Bool} {description : String}
    (h : a.allocate available description = (.ok port, a')) :
    port ∈ a.candidates ∧ port ∉ a.allocated ∧ available port = true ∧
      a' = { a with
        allocated := a.allocated.insert port description
        next := if wrapInt64 (port + 1) ≥ a.stop then a.start else wrapInt64 (port + 1) } := by
  rw [allocate] at h
  split at h
  · cases (Prod.mk.inj h).1
  · rename_i port' hfound
    cases h
    have hfree := find?_some hfound
    rw [Bool.and_eq_true, Bool.not_eq_true', decide_eq_false_iff_not] at hfree
    exact ⟨mem_of_find?_eq_some hfound, hfree.1, hfree.2, rfl⟩

/-- **What it means that it fails**: no candidate is free. -/
theorem allocate_eq_error {available : ℤ → Bool} {description err : String}
    (h : a.allocate available description = (.error err, a')) :
    a' = a ∧ ∀ port ∈ a.candidates, port ∈ a.allocated ∨ available port = false := by
  rw [allocate] at h
  split at h
  · rename_i hnone
    cases h
    refine ⟨rfl, fun port hport => ?_⟩
    have htaken := find?_eq_none.mp hnone port hport
    rw [Bool.and_eq_true, Bool.not_eq_true', decide_eq_false_iff_not, not_and_or, not_not,
      Bool.not_eq_true] at htaken
    exact htaken
  · cases (Prod.mk.inj h).1

theorem ranged_act (hrange : Countable start stop) (ha : a.Ranged start stop) (op : Op) :
    (op.act a).Ranged start stop := by
  cases op with
  | allocate available description =>
    rcases hresult : a.allocate available description with ⟨_ | port, a'⟩
    · rw [Op.act, hresult, (allocate_eq_error hresult).1]
      exact ha
    · obtain ⟨hmem, -, -, rfl⟩ := allocate_eq_ok hresult
      obtain ⟨hle, hlt⟩ := (mem_candidates hrange ha).mp hmem
      have hnext : wrapInt64 (port + 1) = port + 1 :=
        wrapInt64_of_mem (by have := hrange.start_ge; omega) (by have := hrange.stop_lt; omega)
      rw [Op.act, hresult]
      refine ⟨ha.start_eq, ha.stop_eq, fun _ => ?_, fun hne => ?_⟩
      · dsimp only
        rw [ha.start_eq]
        split_ifs <;> omega
      · dsimp only
        rw [ha.start_eq, ha.stop_eq]
        split_ifs <;> omega
  | release | markAllocated => exact ⟨ha.start_eq, ha.stop_eq, ha.le_next, ha.next_lt⟩
  | releaseAll =>
    exact ⟨ha.start_eq, ha.stop_eq, fun _ => ha.start_eq.ge,
      fun h => by rw [← ha.start_eq] at h; exact h⟩

/-- **Every run keeps the cursor in the range.** -/
theorem ranged_foldl (hrange : Countable start stop) (ops : List Op) :
    (ops.foldl (fun a op => op.act a) (newPortAllocator start stop)).Ranged start stop := by
  induction ops using reverseRecOn with
  | nil => exact ranged_new
  | append_singleton ops op ih =>
    rw [foldl_append]
    exact ranged_act hrange ih op

/-! ### Calls in a row -/

/-- So many calls of `Allocate` in a row, as long as none of them fails: the ports, and what the
allocator is then. -/
def allocateAll (available : ℤ → Bool) (description : String) :
    ℕ → PortAllocator → Except String (List ℤ × PortAllocator)
  | 0, a => .ok ([], a)
  | k + 1, a =>
    match a.allocate available description with
    | (.error err, _) => .error err
    | (.ok port, a') =>
      (allocateAll available description k a').map fun r => (port :: r.1, r.2)

section InARow

variable {available : ℤ → Bool} {description : String} {k : ℕ} {r : List ℤ × PortAllocator}

theorem allocateAll_of_error {err : String}
    (h : a.allocate available description = (.error err, a')) :
    allocateAll available description (k + 1) a = .error err := by
  rw [allocateAll, h]

theorem allocateAll_of_ok (h : a.allocate available description = (.ok port, a')) :
    allocateAll available description (k + 1) a =
      (allocateAll available description k a').map fun r => (port :: r.1, r.2) := by
  rw [allocateAll, h]

theorem allocateAll_succ_eq_ok (h : allocateAll available description (k + 1) a = .ok r) :
    ∃ port a' rest, a.allocate available description = (.ok port, a') ∧
      allocateAll available description k a' = .ok (rest, r.2) ∧ r.1 = port :: rest := by
  rcases hresult : a.allocate available description with ⟨err | port, a'⟩
  · rw [allocateAll_of_error hresult] at h
    cases h
  · rw [allocateAll_of_ok hresult] at h
    rcases hrest : allocateAll available description k a' with err | ⟨rest, a''⟩
    · rw [hrest] at h
      cases h
    · rw [hrest] at h
      cases h
      exact ⟨port, a', rest, rfl, hrest, rfl⟩

/-- **The ports of calls in a row** are so many, all different, in the range and free before. -/
theorem of_allocateAll (hrange : Countable start stop) (ha : a.Ranged start stop)
    (h : allocateAll available description k a = .ok r) :
    r.1.length = k ∧ r.1.Nodup ∧ ∀ port ∈ r.1, (start ≤ port ∧ port < stop) ∧
    port ∉ a.allocated := by
  induction k generalizing a r with
  | zero =>
    cases h
    exact ⟨rfl, nodup_nil, by simp⟩
  | succ k ih =>
    obtain ⟨port, a', rest, hfirst, hrest, hports⟩ := allocateAll_succ_eq_ok h
    have ha' : a'.Ranged start stop := by
      have hact := ranged_act hrange ha (.allocate available description)
      rwa [Op.act, hfirst] at hact
    obtain ⟨hlength, hnodup, hfree⟩ := ih ha' hrest
    obtain ⟨hmem, hnot, -, rfl⟩ := allocate_eq_ok hfirst
    simp only [mem_insert, not_or] at hfree
    rw [hports]
    refine ⟨by rw [length_cons, hlength], ?_, ?_⟩
    · exact nodup_cons.mpr ⟨fun hport => (hfree port hport).2.1 rfl, hnodup⟩
    · refine forall_mem_cons.mpr ⟨⟨(mem_candidates hrange ha).mp hmem, hnot⟩, fun p hp => ?_⟩
      exact ⟨(hfree p hp).1, (hfree p hp).2.2⟩

theorem length_ports : (ports start stop).length = (stop - start).toNat := by
  rw [ports, length_map, length_range]

/-- **How many calls in a row succeed** when no port is in use: as many as the range has ports that
are not reserved. -/
theorem exists_allocateAll_iff (hrange : Countable start stop) (ha : a.Ranged start stop)
    (hin : ∀ port ∈ a.allocated, start ≤ port ∧ port < stop) :
    (∃ r, allocateAll (fun _ => true) description k a = .ok r) ↔
      a.allocated.keys.length + k ≤ (stop - start).toNat := by
  induction k generalizing a with
  | zero =>
    have hsub : a.allocated.keys.Subperm (ports start stop) :=
      a.allocated.keys_nodup.subperm fun port hport => mem_ports.mpr (hin port (mem_keys.mpr hport))
    have hle := hsub.length_le
    rw [length_ports] at hle
    exact iff_of_true ⟨_, rfl⟩ hle
  | succ k ih =>
    rcases hresult : a.allocate (fun _ => true) description with ⟨err | port, a'⟩
    · -- every port of the range is reserved
      have hsub : (ports start stop).Subperm a.allocated.keys := by
        refine nodup_ports.subperm fun port hport => ?_
        have hmem := (mem_candidates hrange ha).mpr (mem_ports.mp hport)
        have htaken := (allocate_eq_error hresult).2 port hmem
        exact mem_keys.mp (htaken.resolve_right (by simp))
      have hle := hsub.length_le
      rw [length_ports] at hle
      rw [allocateAll_of_error hresult]
      refine iff_of_false ?_ (by omega)
      rintro ⟨r, hr⟩
      cases hr
    · have ha' : a'.Ranged start stop := by
        have hact := ranged_act hrange ha (.allocate (fun _ => true) description)
        rwa [Op.act, hresult] at hact
      obtain ⟨hmem, hnot, -, rfl⟩ := allocate_eq_ok hresult
      have hport := (mem_candidates hrange ha).mp hmem
      have hkeys : (a.allocated.insert port description).keys.length =
          a.allocated.keys.length + 1 := by
        rw [keys_insert, erase_of_not_mem fun h => hnot (mem_keys.mpr h),
          length_cons]
      have hin' : ∀ p ∈ a.allocated.insert port description, start ≤ p ∧ p < stop := by
        intro p hp
        rcases (mem_insert _).mp hp with rfl | hp
        · exact hport
        · exact hin p hp
      have hrest := ih ha' hin'
      rw [hkeys] at hrest
      constructor
      · rintro ⟨r, hr⟩
        obtain ⟨port', a'', rest, hfirst, hr', -⟩ := allocateAll_succ_eq_ok hr
        rw [hresult] at hfirst
        cases hfirst
        have hle := hrest.mp ⟨_, hr'⟩
        omega
      · intro hle
        obtain ⟨r, hr⟩ := hrest.mpr (by omega)
        exact ⟨_, by rw [allocateAll_of_ok hresult, hr]; rfl⟩

end InARow

end PortAllocator

open PortAllocator

/-- **The allocator is sound and complete**, after any calls on an allocator of any range that its
turns can count. -/
theorem allocator_sound_complete (start stop : Int64)
    (hlo : -2 ^ 63 ≤ stop.toInt - start.toInt) (hhi : stop.toInt - start.toInt ≤ 2 ^ 62)
    (ops : List Op) :
    let a := ops.foldl (fun a op => op.act a) (newPortAllocator start.toInt stop.toInt)
    (∀ i < a.rangeSize.toNat, (a.port? i).isSome) ∧ a.candidates.Nodup ∧
      (∀ available description port a', a.allocate available description = (.ok port, a') →
        (start.toInt ≤ port ∧ port < stop.toInt) ∧ port ∉ a.allocated ∧ port ∈ a'.allocated) ∧
      (∀ available description err a', a.allocate available description = (.error err, a') →
        ∀ port, start.toInt ≤ port → port < stop.toInt →
          port ∈ a.allocated ∨ port ∈ a.candidates ∧ available port = false) ∧
      (start < stop → start.toInt ≤ a.next ∧ a.next < stop.toInt) := by
  intro a
  have hrange : Countable start.toInt stop.toInt :=
    ⟨start.le_toInt, stop.toInt_lt, hlo, hhi⟩
  have ha : a.Ranged start.toInt stop.toInt := ranged_foldl hrange ops
  refine ⟨fun i hi => ?_, ?_, ?_, ?_, fun hlt => ?_⟩
  · rw [port?_eq hrange ha hi]
    rfl
  · rw [candidates_eq hrange ha]
    exact nodup_rotate.mpr nodup_ports
  · intro available description port a' h
    obtain ⟨hmem, hfree, -, rfl⟩ := allocate_eq_ok h
    exact ⟨(mem_candidates hrange ha).mp hmem, hfree, (mem_insert _).mpr (.inl rfl)⟩
  · intro available description err a' h port hle hport
    have hmem := (mem_candidates hrange ha).mpr ⟨hle, hport⟩
    exact ((allocate_eq_error h).2 port hmem).imp_right fun htaken => ⟨hmem, htaken⟩
  · have hlt : start.toInt < stop.toInt := Int64.lt_iff_toInt_lt.mp hlt
    exact ⟨ha.le_next hlt, ha.next_lt hlt⟩

/-- Three ports, of which the first is taken. -/
theorem allocator_sound_complete_three :
    ((8003 : Int64).toInt - (8000 : Int64).toInt ≤ 2 ^ 62) ∧
      let a := (newPortAllocator 8000 8003).markAllocated 8000 "web"
      (∃ a', a.allocate (fun _ => true) "db" = (.ok 8001, a')) ∧
        ∀ available description err a', a.allocate available description = (.error err, a') →
          available 8001 = false ∧ available 8002 = false := by
  obtain ⟨-, -, -, hfail, -⟩ := allocator_sound_complete 8000 8003 (by decide) (by decide)
    [.markAllocated 8000 "web"]
  refine ⟨by decide, ⟨_, rfl⟩, fun available description err a' h => ?_⟩
  have hfree : ∀ port : ℤ, port = 8001 ∨ port = 8002 → available port = false := by
    rintro port (rfl | rfl)
    · exact ((hfail available description err a' h 8001 (by decide) (by decide)).resolve_left
        (by decide)).2
    · exact ((hfail available description err a' h 8002 (by decide) (by decide)).resolve_left
        (by decide)).2
  exact ⟨hfree 8001 (.inl rfl), hfree 8002 (.inr rfl)⟩

/-- **A range that is too large fails at once**: the number of its ports is negative in 64 bits, so
there is no turn, and no port is taken and none is asked for. **And one that is too far inverted
has ports to give**: there is none in it, and their number is positive. -/
theorem allocate_wraps :
    (let a := newPortAllocator (Int64.minValue).toInt (Int64.maxValue).toInt
     (∃ err, a.allocate (fun _ => true) "web" = (.error err, a)) ∧ a.candidates = [] ∧
      (Int64.minValue).toInt ≤ 8080 ∧ 8080 < (Int64.maxValue).toInt ∧ (8080 : ℤ) ∉ a.allocated) ∧
    (newPortAllocator 8080 (Int64.minValue).toInt).port? 0 = some 8080 ∧
      0 < (newPortAllocator 8080 (Int64.minValue).toInt).rangeSize :=
  ⟨⟨⟨_, rfl⟩, rfl, by decide, by decide, by decide⟩, rfl, by decide⟩

end Containers.Network
