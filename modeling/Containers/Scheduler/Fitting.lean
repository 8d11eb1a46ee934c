import Containers.Scheduler.Capacity

/-!
# How fitting depends on the host and on the request

`canFit_mono_iff`: what fits a host fits a larger one, and what asks for less fits as well – as long
as the megabytes open on the larger host are a number `uint64` can hold, since `CanFit` converts
them unchecked (`larger_host_refuses`).

`deductCapacity_costs_iff`: without overcommitment a placement takes exactly its own size off what
still fits. `deductCapacity` charges the percentage without the overcommit ratio, and `CanFit`
applies the ratio to what is left, so with any other ratio a placement costs that many times its
size (`placement_costs_double`), and the books are right only where that does not show: nothing is
left, or less than a megabyte is lost.
-/

namespace Containers.Scheduler

open Go Remote Platform

variable {P : Platform} {opts : Options} {r r' : HostResources} {req req' : ContainerRequirements}
  {reserve total used x : ℚ}

/-! ### Larger hosts and smaller requests -/

/-- `r'` has at least the totals of `r`, no more of them in use, and its GPUs among its own. -/
structure NoLess (r' r : HostResources) : Prop where
  cpuCores : r.cpuCores ≤ r'.cpuCores
  memoryTotalMB : r.memoryTotalMB ≤ r'.memoryTotalMB
  diskTotalMB : r.diskTotalMB ≤ r'.diskTotalMB
  cpuPercent : r'.cpuPercent ≤ r.cpuPercent
  memoryPercent : r'.memoryPercent ≤ r.memoryPercent
  diskPercent : r'.diskPercent ≤ r.diskPercent
  gpu : r.gpu.Subperm r'.gpu

/-- `g'` is `g` with at most its count and at most its minimum memory. -/
def NoMoreGPU (g' g : GPURequirement) : Prop :=
  ∃ count ≤ g.count, ∃ vram ≤ g.minVRAMMB, g' = { g with count := count, minVRAMMB := vram }

/-- `req'` asks for no more than `req`. -/
structure NoMore (req' req : ContainerRequirements) : Prop where
  cpuCores : req'.cpuCores ≤ req.cpuCores
  memoryMB : req'.memoryMB ≤ req.memoryMB
  diskMB : req'.diskMB ≤ req.diskMB
  gpu : Option.Rel NoMoreGPU req'.gpu req.gpu

theorem room_le_room {total' used' factor : ℚ} (h0 : 0 ≤ total) (htotal : total ≤ total')
    (hused : used' ≤ used) (hfactor : 0 < factor)
    (hpos : 0 < total * (100 - used - reserve) / 100 * factor) :
    total * (100 - used - reserve) / 100 * factor ≤
      total' * (100 - used' - reserve) / 100 * factor := by
  have hleft : 0 ≤ 100 - used - reserve := by
    by_contra hneg
    have hprod : total * (100 - used - reserve) ≤ 0 :=
      mul_nonpos_of_nonneg_of_nonpos h0 (not_le.mp hneg).le
    have := (mul_pos_iff_of_pos_right hfactor).mp hpos
    linarith
  have h0' : 0 ≤ total' := h0.trans htotal
  gcongr

/-- **A word that a room admits** is admitted by a larger room, if and only if the conversion of
that one is exact or comes to as much all the same. -/
theorem word_le_iff_of_le {w : UInt64} {y : ℚ} (hfit : 0 < w → 0 ≤ x ∧ w ≤ P.uint64Of x)
    (hxy : 0 < x → x ≤ y) :
    (0 < w → 0 ≤ y ∧ w ≤ P.uint64Of y) ↔ w = 0 ∨ y < 2 ^ 64 ∨ w ≤ P.uint64Of y := by
  by_cases hzero : w = 0
  · simp [hzero]
  have hw : 0 < w := UInt64.pos_iff_ne_zero.mpr hzero
  obtain ⟨hx, hle⟩ := hfit hw
  have hwx : (w.toNat : ℚ) ≤ x :=
    le_trans (by exact_mod_cast UInt64.le_iff_toNat_le.mp hle) (P.uint64Of_le hx)
  have hwy : (w.toNat : ℚ) ≤ y := hwx.trans (hxy (lt_of_lt_of_le (toNat_pos_iff.mp hw) hwx))
  have h0 : 0 ≤ y := le_trans (by positivity) hwy
  refine ⟨fun h => .inr (.inr (h hw).2), fun h _ => ⟨h0, ?_⟩⟩
  rcases h with rfl | hy | hconv
  · exact absurd hw (UInt64.lt_irrefl 0)
  · rw [UInt64.le_iff_toNat_le, P.uint64Of_toNat y h0 hy]
    exact Nat.le_floor hwy
  · exact hconv

theorem gpuMatchesReq_of_noMore {g g' : GPURequirement} (h : NoMoreGPU g' g) (d : GPUDevice)
    (hd : gpuMatchesReq d g = true) : gpuMatchesReq d g' = true := by
  obtain ⟨count, -, vram, hvram, rfl⟩ := h
  simp only [gpuMatchesReq, Bool.if_false_left, Bool.and_eq_true, Bool.not_eq_true',
    decide_eq_false_iff_not] at hd ⊢
  refine ⟨hd.1, fun hfew => hd.2.1 ?_, hd.2.2⟩
  exact ⟨lt_of_lt_of_le hfew.1 hvram, lt_of_lt_of_le hfew.2 hvram⟩

/-- **Fitting is monotone**: what fits a host fits a larger host if and only if its open memory is a
number `uint64` can hold, or is converted to enough all the same, or no memory is asked for, and
likewise for the disk; and what asks for no more fits the same host. -/
theorem canFit_mono_iff (P : Platform) (opts : Options) (hover : 0 < opts.overcommitRatio)
    (r : HostResources) (req : ContainerRequirements) (hcores : 0 ≤ r.cpuCores)
    (hfit : canFit P opts (some r) req = true) :
    (∀ r', NoLess r' r → (canFit P opts (some r') req = true ↔
      (req.memoryMB = 0 ∨ availMemoryMB r' opts.reservePercent opts.overcommitRatio < 2 ^ 64 ∨
        req.memoryMB ≤
          P.uint64Of (availMemoryMB r' opts.reservePercent opts.overcommitRatio)) ∧
      (req.diskMB = 0 ∨ availDiskMB r' opts.reservePercent < 2 ^ 64 ∨
        req.diskMB ≤ P.uint64Of (availDiskMB r' opts.reservePercent)))) ∧
    ∀ req', NoMore req' req → canFit P opts (some r) req' = true := by
  have hratio : overcommitOf opts = opts.overcommitRatio := if_neg (not_le.mpr hover)
  rw [canFit_some_iff, hratio] at hfit
  obtain ⟨hc, hm, hd, hg⟩ := hfit
  refine ⟨fun r' h => ?_, fun req' h => ?_⟩
  · have hcpu : 0 < req.cpuCores →
        req.cpuCores ≤ availCores r' opts.reservePercent opts.overcommitRatio := fun hpos =>
      (hc hpos).trans (room_le_room (by exact_mod_cast hcores) (by exact_mod_cast h.cpuCores)
        h.cpuPercent hover (lt_of_lt_of_le hpos (hc hpos)))
    have hgpu : ∀ g, req.gpu = some g → gpuNeed g ≤ (matchingGPUs r'.gpu g).length := by
      intro g hreq
      have hsub := (h.gpu.filter (gpuMatchesReq · g)).length_le
      exact (hg g hreq).trans (by exact_mod_cast hsub)
    have hmem : (0 < req.memoryMB →
        0 ≤ availMemoryMB r' opts.reservePercent opts.overcommitRatio ∧ req.memoryMB ≤
          P.uint64Of (availMemoryMB r' opts.reservePercent opts.overcommitRatio)) ↔ _ :=
      word_le_iff_of_le hm (room_le_room (by positivity)
        (by exact_mod_cast UInt64.le_iff_toNat_le.mp h.memoryTotalMB) h.memoryPercent hover)
    have hdisk : (0 < req.diskMB → 0 ≤ availDiskMB r' opts.reservePercent ∧
        req.diskMB ≤ P.uint64Of (availDiskMB r' opts.reservePercent)) ↔
        req.diskMB = 0 ∨ availDiskMB r' opts.reservePercent < 2 ^ 64 ∨
          req.diskMB ≤ P.uint64Of (availDiskMB r' opts.reservePercent) := by
      rw [availDiskMB, ← mul_one (_ / _)] at hd ⊢
      exact word_le_iff_of_le hd (room_le_room (by positivity)
        (by exact_mod_cast UInt64.le_iff_toNat_le.mp h.diskTotalMB) h.diskPercent one_pos)
    rw [canFit_some_iff, hratio, and_iff_right hcpu]
    exact and_congr hmem ((and_iff_left hgpu).trans hdisk)
  · rw [canFit_some_iff, hratio]
    refine ⟨fun hpos => ?_, fun hpos => ?_, fun hpos => ?_, fun g' hreq => ?_⟩
    · exact h.cpuCores.trans (hc (lt_of_lt_of_le hpos h.cpuCores))
    · obtain ⟨h0, hle⟩ := hm (UInt64.lt_of_lt_of_le hpos h.memoryMB)
      exact ⟨h0, UInt64.le_trans h.memoryMB hle⟩
    · obtain ⟨h0, hle⟩ := hd (UInt64.lt_of_lt_of_le hpos h.diskMB)
      exact ⟨h0, UInt64.le_trans h.diskMB hle⟩
    · have hrel := h.gpu
      rw [hreq] at hrel
      cases hgpu : req.gpu with
      | none => rw [hgpu] at hrel; cases hrel
      | some g =>
        rw [hgpu] at hrel
        cases hrel with
        | some hno =>
        have hneed : gpuNeed g' ≤ gpuNeed g := by
          obtain ⟨count, hcount, vram, -, rfl⟩ := hno
          rw [gpuNeed_eq_max, gpuNeed_eq_max]
          exact max_le_max_left 1 hcount
        have hmatch := (List.monotone_filter_right r.gpu (gpuMatchesReq_of_noMore hno)).length_le
        exact hneed.trans ((hg g hgpu).trans (by exact_mod_cast hmatch))

def idleHost (cores : ℤ) (memoryMB : UInt64) : HostResources :=
  { cpuCores := cores, memoryTotalMB := memoryMB }

/-- Three cores and a gigabyte that fit a host fit one with twice as much, and so do two cores. -/
theorem canFit_mono_eight :
    canFit Platform.reference {} (some (idleHost 8 4096))
      { cpuCores := 3, memoryMB := 1024 } = true ∧
      canFit Platform.reference {} (some (idleHost 4 2048)) { cpuCores := 2, memoryMB := 512 } =
        true := by
  obtain ⟨hhost, hreq⟩ := canFit_mono_iff reference {} (by norm_num) (idleHost 4 2048)
    { cpuCores := 3, memoryMB := 1024 } (by decide) (by decide +kernel)
  refine ⟨(hhost (idleHost 8 4096) ⟨by decide, by decide, UInt64.le_refl _, le_rfl, le_rfl, le_rfl,
    List.Subperm.refl _⟩).mpr ⟨.inr (.inl (by decide +kernel)), .inl rfl⟩, hreq _ ⟨?_, by decide,
    UInt64.le_refl _, .none⟩⟩
  decide +kernel

/-- **A larger host can refuse**: at an overcommit ratio of two, `2 ^ 63 + 2048` megabytes fit a
host with half of that, but not one with `2 ^ 63`: what is open there is no `uint64`. -/
theorem larger_host_refuses :
    NoLess (idleHost 0 0x8000000000000000) (idleHost 0 0x4000000000000400) ∧
      canFit Platform.reference { overcommitRatio := 2, reservePercent := 0 }
        (some (idleHost 0 0x4000000000000400)) { memoryMB := 0x8000000000000800 } = true ∧
      canFit Platform.reference { overcommitRatio := 2, reservePercent := 0 }
        (some (idleHost 0 0x8000000000000000)) { memoryMB := 0x8000000000000800 } = false := by
  refine ⟨⟨le_rfl, by decide +kernel, by decide, le_rfl, le_rfl, le_rfl, List.Subperm.refl _⟩,
    ?_, ?_⟩ <;> decide +kernel

/-! ### What a placement costs -/

def cpuRequests (P : Platform) (opts : Options) (r : HostResources) : Set ℚ :=
  {x | 0 ≤ x ∧ canFit P opts (some r) { cpuCores := x } = true}

def memoryRequests (P : Platform) (opts : Options) (r : HostResources) : Set ℕ :=
  {m | m < 2 ^ 64 ∧ canFit P opts (some r) { memoryMB := .ofNat m } = true}

theorem mem_cpuRequests : x ∈ cpuRequests P opts r ↔
    0 ≤ x ∧ (0 < x → x ≤ availCores r opts.reservePercent (overcommitOf opts)) := by
  simp [cpuRequests, canFit_some_iff]

theorem mem_memoryRequests
    (hroom : availMemoryMB r opts.reservePercent (overcommitOf opts) < 2 ^ 64) {m : ℕ} :
    m ∈ memoryRequests P opts r ↔
      (0 < (m : ℚ) → m ≤ availMemoryMB r opts.reservePercent (overcommitOf opts)) := by
  simp only [memoryRequests, Set.mem_ofPred_eq, canFit_some_iff, toNat_pos_iff,
    UInt64.le_iff_toNat_le]
  constructor
  · rintro ⟨hm, -, h, -⟩ hpos
    rw [UInt64.toNat_ofNat_of_lt' hm] at h
    exact le_trans (by exact_mod_cast (h hpos).2) (P.uint64Of_le (h hpos).1)
  · intro h
    have hm : m < 2 ^ 64 := by
      rcases Nat.eq_zero_or_pos m with rfl | hpos
      · norm_num
      · exact_mod_cast lt_of_le_of_lt (h (by exact_mod_cast hpos)) hroom
    rw [UInt64.toNat_ofNat_of_lt' hm]
    refine ⟨hm, by simp, fun hpos => ?_, by simp, by simp⟩
    have h0 := hpos.le.trans (h hpos)
    rw [P.uint64Of_toNat _ h0 hroom]
    exact ⟨h0, Nat.le_floor (h hpos)⟩

theorem isGreatest_cpuRequests : IsGreatest (cpuRequests P opts r)
    (max 0 (availCores r opts.reservePercent (overcommitOf opts))) := by
  refine ⟨mem_cpuRequests.mpr ⟨le_max_left .., fun hpos => ?_⟩, fun x hx => ?_⟩
  · rw [max_eq_right ((lt_max_iff.mp hpos).resolve_left (lt_irrefl 0)).le]
  · obtain ⟨h0, hle⟩ := mem_cpuRequests.mp hx
    rcases h0.eq_or_lt with rfl | hpos
    · exact le_max_left ..
    · exact le_max_of_le_right (hle hpos)

theorem isGreatest_memoryRequests
    (hroom : availMemoryMB r opts.reservePercent (overcommitOf opts) < 2 ^ 64) :
    IsGreatest (memoryRequests P opts r)
      ⌊availMemoryMB r opts.reservePercent (overcommitOf opts)⌋₊ := by
  refine ⟨(mem_memoryRequests hroom).mpr fun hpos => ?_, fun m hm => ?_⟩
  · exact Nat.floor_le (Nat.pos_of_floor_pos (by exact_mod_cast hpos)).le
  · rcases Nat.eq_zero_or_pos m with rfl | hpos
    · exact Nat.zero_le _
    · exact Nat.le_floor ((mem_memoryRequests hroom).mp hm (by exact_mod_cast hpos))

theorem full_room_nonpos {ratio : ℚ} (htotal : 0 < total) (hreserve : 0 ≤ reserve)
    (hratio : 0 < ratio) : total * (100 - 100 - reserve) / 100 * ratio ≤ 0 := by
  have h : 0 ≤ total * reserve / 100 * ratio := by positivity
  linarith [show total * (100 - 100 - reserve) / 100 * ratio =
    -(total * reserve / 100 * ratio) by ring]

/-- **What a charge leaves of a room**: everything if nothing is asked for, nothing if the
percentage reaches 100, and otherwise the room without the request times the ratio. -/
theorem room_charge {q ratio used' : ℚ} (htotal : 0 < total) (hreserve : 0 ≤ reserve)
    (hratio : 0 < ratio)
    (hused' : used' = if q > 0 ∧ total > 0 then capPercent (used + q / total * 100) else used) :
    q ≤ 0 ∧ used' = used ∨
    0 < q ∧ used + q / total * 100 < 100 ∧ used' ≠ 100 ∧
      total * (100 - used' - reserve) / 100 * ratio =
        total * (100 - used - reserve) / 100 * ratio - q * ratio ∨
    0 < q ∧ 100 ≤ used + q / total * 100 ∧ used' = 100 ∧
      total * (100 - used' - reserve) / 100 * ratio ≤ 0 := by
  rcases le_or_gt q 0 with hq | hq
  · exact .inl ⟨hq, hused'.trans (if_neg fun h => absurd h.1 (not_lt.mpr hq))⟩
  rw [if_pos ⟨hq, htotal⟩, capPercent_eq_min] at hused'
  rcases lt_or_ge (used + q / total * 100) 100 with hlt | hge
  · rw [min_eq_left hlt.le] at hused'
    refine .inr (.inl ⟨hq, hlt, hused' ▸ hlt.ne, ?_⟩)
    rw [hused']
    field_simp
    ring
  · rw [min_eq_right hge] at hused'
    exact .inr (.inr ⟨hq, hge, hused', hused' ▸ full_room_nonpos htotal hreserve hratio⟩)

/-- What is open goes down by the request, where the request times the ratio is taken away. -/
theorem sub_eq_max_iff {A q ratio : ℚ} (hq : 0 < q) (hopen : q ≤ A) :
    A - q = max 0 (A - q * ratio) ↔ ratio = 1 ∨ q = A ∧ 1 ≤ ratio := by
  rcases le_total 0 (A - q * ratio) with hpos | hneg
  · rw [max_eq_right hpos]
    constructor
    · intro h
      have hprod : q * (ratio - 1) = 0 := by linarith
      rcases mul_eq_zero.mp hprod with h0 | h1
      · exact absurd h0 hq.ne'
      · exact .inl (by linarith)
    · rintro (h | ⟨rfl, h⟩)
      · rw [h, mul_one]
      · nlinarith
  · rw [max_eq_left hneg]
    constructor
    · intro h
      refine .inr ⟨by linarith, ?_⟩
      by_contra hlow
      nlinarith [not_le.mp hlow]
    · rintro (h | ⟨rfl, h⟩)
      · rw [h, mul_one] at hneg
        linarith
      · exact sub_self _

/-- **When a CPU request costs exactly what it asks for**: nothing is asked for, or the request
takes all cores, or all that is open, or there is no overcommitment. -/
def CPUCostsExactly (opts : Options) (r : HostResources) (q : ℚ) : Prop :=
  q = 0 ∨ q < 0 ∧ r.cpuPercent = 100 ∨
    0 < q ∧ (100 ≤ r.cpuPercent + q / r.cpuCores * 100 ∨ opts.overcommitRatio = 1 ∨
      q = availCores r opts.reservePercent opts.overcommitRatio ∧ 1 ≤ opts.overcommitRatio)

/-- **When a memory request does**: nothing is asked for, or the request takes all memory, or the
request times the ratio lowers the open megabytes by as many whole ones as are asked for. -/
def MemoryCostsExactly (opts : Options) (r : HostResources) (q : ℕ) : Prop :=
  let room := availMemoryMB r opts.reservePercent opts.overcommitRatio
  q = 0 ∨ 100 ≤ r.memoryPercent + q / r.memoryTotalMB.toNat * 100 ∨
    ⌊room - q * opts.overcommitRatio⌋₊ = ⌊room⌋₊ - q

theorem isGreatest_iff_eq {α : Type} [PartialOrder α] {s : Set α} {a b : α} (h : IsGreatest s a) :
    IsGreatest s b ↔ b = a :=
  ⟨fun hb => hb.unique h, fun hb => hb ▸ h⟩

section Costs

variable (hover : 0 < opts.overcommitRatio) (hreserve : 0 ≤ opts.reservePercent)

include hover hreserve

theorem cpu_costs_iff (hfit : canFit P opts (some r) req = true) (hcores : 0 < r.cpuCores) :
    (∃ c, IsGreatest (cpuRequests P opts r) c ∧
      (IsGreatest (cpuRequests P opts (deductCapacity P r req)) (c - req.cpuCores) ∨
        (deductCapacity P r req).cpuPercent = 100 ∧
          IsGreatest (cpuRequests P opts (deductCapacity P r req)) 0)) ↔
    CPUCostsExactly opts r req.cpuCores := by
  have hratio : overcommitOf opts = opts.overcommitRatio := if_neg (not_le.mpr hover)
  have hT : (0 : ℚ) < r.cpuCores := by exact_mod_cast hcores
  have hc := ((canFit_some_iff P opts r req).mp hfit).1
  simp only [isGreatest_iff_eq isGreatest_cpuRequests, exists_eq_left, CPUCostsExactly, hratio]
    at hc ⊢
  have hcharged : (deductCapacity P r req).cpuPercent =
      if req.cpuCores > 0 ∧ (r.cpuCores : ℚ) > 0 then
        capPercent (r.cpuPercent + req.cpuCores / r.cpuCores * 100)
      else r.cpuPercent := by
    simp only [deductCapacity_cpuPercent, gt_iff_lt, Int.cast_pos]
  have hcharge := room_charge hT hreserve hover hcharged
  have hafter : availCores (deductCapacity P r req) opts.reservePercent opts.overcommitRatio =
      r.cpuCores * (100 - (deductCapacity P r req).cpuPercent - opts.reservePercent) / 100 *
        opts.overcommitRatio := by
    rw [availCores, HostResources.availableCPUPercent, deductCapacity_cpuCores]
  have hbefore : availCores r opts.reservePercent opts.overcommitRatio =
      r.cpuCores * (100 - r.cpuPercent - opts.reservePercent) / 100 * opts.overcommitRatio := rfl
  rw [hafter]
  rcases hcharge with ⟨hq, hpercent⟩ | ⟨hq, hlt, hne, hroom⟩ | ⟨hq, hge, hpercent, hroom⟩
  · -- nothing is charged
    rw [hpercent, ← hbefore]
    rcases hq.eq_or_lt with hq | hq
    · simp [hq]
    · have hfull : r.cpuPercent = 100 →
          availCores r opts.reservePercent opts.overcommitRatio ≤ 0 := fun h => by
        rw [hbefore, h]
        exact full_room_nonpos hT hreserve hover
      constructor
      · rintro (h | ⟨h, -⟩)
        · exact absurd h (by linarith)
        · exact .inr (.inl ⟨hq, h⟩)
      · rintro (h | ⟨-, h⟩ | ⟨h, -⟩)
        · exact absurd h hq.ne
        · exact .inr ⟨h, (max_eq_left (hfull h)).symm⟩
        · exact absurd h hq.not_gt
  · have hopen := hc hq
    rw [hroom, ← hbefore, max_eq_right (hq.le.trans hopen)]
    simp only [hne, false_and, or_false, hq.ne', hq.not_gt, false_or, hq, true_and,
      not_le.mpr hlt]
    exact sub_eq_max_iff hq hopen
  · exact iff_of_true (.inr ⟨hpercent, (max_eq_left hroom).symm⟩) (.inr (.inr ⟨hq, .inl hge⟩))

theorem memory_costs_iff (hmemory : 0 < r.memoryTotalMB)
    (hroom : availMemoryMB r opts.reservePercent opts.overcommitRatio < 2 ^ 64) :
    (∃ m, IsGreatest (memoryRequests P opts r) m ∧
      (IsGreatest (memoryRequests P opts (deductCapacity P r req)) (m - req.memoryMB.toNat) ∨
        (deductCapacity P r req).memoryPercent = 100 ∧
          IsGreatest (memoryRequests P opts (deductCapacity P r req)) 0)) ↔
    MemoryCostsExactly opts r req.memoryMB.toNat := by
  have hratio : overcommitOf opts = opts.overcommitRatio := if_neg (not_le.mpr hover)
  have hT : (0 : ℚ) < r.memoryTotalMB.toNat := toNat_pos_iff.mp hmemory
  have hcharged : (deductCapacity P r req).memoryPercent =
      if (req.memoryMB.toNat : ℚ) > 0 ∧ (r.memoryTotalMB.toNat : ℚ) > 0 then
        capPercent (r.memoryPercent + (req.memoryMB.toNat : ℚ) / r.memoryTotalMB.toNat * 100)
      else r.memoryPercent := by
    simp only [deductCapacity_memoryPercent, toNat_pos_iff]
  have hcharge := room_charge hT hreserve hover hcharged
  have hafter : availMemoryMB (deductCapacity P r req) opts.reservePercent opts.overcommitRatio =
      r.memoryTotalMB.toNat * (100 - (deductCapacity P r req).memoryPercent -
        opts.reservePercent) / 100 * opts.overcommitRatio := by
    rw [availMemoryMB, HostResources.availableMemoryPercent, deductCapacity_memoryTotalMB]
  have hbefore : availMemoryMB r opts.reservePercent opts.overcommitRatio =
      r.memoryTotalMB.toNat * (100 - r.memoryPercent - opts.reservePercent) / 100 *
        opts.overcommitRatio := rfl
  have hq0 : (0 : ℚ) ≤ req.memoryMB.toNat := by positivity
  have hroom' : availMemoryMB (deductCapacity P r req) opts.reservePercent
      opts.overcommitRatio < 2 ^ 64 := by
    rw [hafter]
    rcases hcharge with ⟨-, hpercent⟩ | ⟨hq, -, -, hleft⟩ | ⟨-, -, -, hleft⟩
    · rwa [hpercent]
    · have := mul_pos hq hover
      linarith
    · exact hleft.trans_lt (by norm_num)
  rw [← hratio] at hroom hroom'
  simp only [isGreatest_iff_eq (isGreatest_memoryRequests hroom),
    isGreatest_iff_eq (isGreatest_memoryRequests hroom'), exists_eq_left,
    MemoryCostsExactly, hratio]
  rw [hafter]
  rcases hcharge with ⟨hq, hpercent⟩ | ⟨hq, hlt, hne, hleft⟩ | ⟨hq, hge, hpercent, hleft⟩
  · have hzero : req.memoryMB.toNat = 0 := by exact_mod_cast le_antisymm hq hq0
    simp [hpercent, hzero, hbefore]
  · have hpos : req.memoryMB.toNat ≠ 0 := by exact_mod_cast hq.ne'
    rw [hleft, ← hbefore]
    simp only [hne, false_and, or_false, hpos, not_le.mpr hlt, false_or]
    exact eq_comm
  · exact iff_of_true (.inr ⟨hpercent, (Nat.floor_of_nonpos hleft).symm⟩) (.inr (.inl hge))

end Costs

/-- **A placement costs exactly what was placed** – the largest CPU and memory requests that still
fit go down by what the container asked for, or to nothing where the percentage reaches 100 – if
and only if the ratio does not show in either. The open memory is a number `uint64` can hold: what
becomes of a larger one is the platform's affair. -/
theorem deductCapacity_costs_iff (P : Platform) (opts : Options) (hover : 0 < opts.overcommitRatio)
    (hreserve : 0 ≤ opts.reservePercent) (r : HostResources) (hcores : 0 < r.cpuCores)
    (hmemory : 0 < r.memoryTotalMB)
    (hroom : availMemoryMB r opts.reservePercent opts.overcommitRatio < 2 ^ 64)
    (req : ContainerRequirements) (hfit : canFit P opts (some r) req = true) :
    let after := deductCapacity P r req
    ((∃ c, IsGreatest (cpuRequests P opts r) c ∧
        (IsGreatest (cpuRequests P opts after) (c - req.cpuCores) ∨
          after.cpuPercent = 100 ∧ IsGreatest (cpuRequests P opts after) 0)) ∧
      ∃ m, IsGreatest (memoryRequests P opts r) m ∧
        (IsGreatest (memoryRequests P opts after) (m - req.memoryMB.toNat) ∨
          after.memoryPercent = 100 ∧ IsGreatest (memoryRequests P opts after) 0)) ↔
    CPUCostsExactly opts r req.cpuCores ∧ MemoryCostsExactly opts r req.memoryMB.toNat :=
  and_congr (cpu_costs_iff hover hreserve hfit hcores)
    (memory_costs_iff hover hreserve hmemory hroom)

/-- Of a host with eight cores and two gigabytes, five cores and one gigabyte leave the rest. -/
theorem deductCapacity_costs_eight :
    let after :=
    deductCapacity Platform.reference (idleHost 8 2048) { cpuCores := 5, memoryMB := 1024 }
    ∃ c, IsGreatest (cpuRequests Platform.reference { reservePercent := 0 } (idleHost 8 2048)) c ∧
      (IsGreatest (cpuRequests Platform.reference { reservePercent := 0 } after) (c - 5) ∨
        after.cpuPercent = 100 ∧
          IsGreatest (cpuRequests Platform.reference { reservePercent := 0 } after) 0) :=
  ((deductCapacity_costs_iff reference { reservePercent := 0 } (by norm_num) le_rfl
    (idleHost 8 2048) (by decide) (by decide) (by decide +kernel)
    { cpuCores := 5, memoryMB := 1024 } (by decide +kernel)).mpr
    ⟨.inr (.inr ⟨by norm_num, .inr (.inl rfl)⟩), .inr (.inr (by decide +kernel))⟩).1

/-- **With an overcommit ratio of two a placement costs twice its size**: sixteen cores fit the
idle host and so do four, but after those four only eight more do, not twelve. -/
theorem placement_costs_double :
    let opts : Options := { overcommitRatio := 2, reservePercent := 0 }
    let after := deductCapacity Platform.reference (idleHost 8 1) { cpuCores := 4 }
    canFit Platform.reference opts (some (idleHost 8 1)) { cpuCores := 4 } = true ∧
      IsGreatest (cpuRequests Platform.reference opts (idleHost 8 1)) 16 ∧
      IsGreatest (cpuRequests Platform.reference opts after) 8 := by
  refine ⟨by decide +kernel, ?_, ?_⟩ <;> convert isGreatest_cpuRequests using 1 <;>
    decide +kernel

end Containers.Scheduler
