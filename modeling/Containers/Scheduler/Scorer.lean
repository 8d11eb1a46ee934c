import Containers.Go.Platform
import Containers.Scheduler.Types

/-!
# Scoring and fitting

`pkg/scheduler/scorer.go`: whether a host can take a container (`canFit`) and how good a host it
would be (`score`), with the GPU matching both rest on.

The two facts the rest of the development uses are `canFit_some_iff`, which says what fitting means
resource by resource, and `score_mem_Icc`: whatever the weights – negative ones included – a score
lies between `0` and `1`.

Two compute capabilities are compared as versions if both are, and as texts otherwise. Both are
orders, but not together (`computeCapabilityLess_cycle`).
-/

namespace Containers.Scheduler

open Go Remote List

/-! ### GPU matching -/

/-- `parseComputeCapability`: a version `major` or `major.minor`, absent when
either part is not an integer. -/
def parseComputeCapability (v : String) : Option (ℤ × ℤ) :=
  match v.toList.span (· ≠ '.') with
  | (major, []) => (atoi major).map fun m => (m, 0)
  -- the separator itself is dropped; a later one belongs to the minor part
  | (major, _ :: minor) => (atoi major).bind fun m => (atoi minor).map fun n => (m, n)

/-- Whether a compute capability is below another: numerically by components,
falling back on the order of strings when either is malformed. -/
def computeCapabilityLess (a b : String) : Bool :=
  match parseComputeCapability a, parseComputeCapability b with
  | some (aMajor, aMinor), some (bMajor, bMinor) =>
    if aMajor ≠ bMajor then aMajor < bMajor else aMinor < bMinor
  | _, _ => a < b

/-- Whether a GPU has the capability `c`; an unknown capability asks nothing. -/
def capabilityMatch (g : GPUDevice) (c : String) : Bool :=
  match c with
  | "cuda" => g.cudaSupported
  | "nvenc" => g.nvencSupported
  | "tensorrt" => g.cudaSupported
  | "vulkan" => g.vulkanSupported
  | "opencl" => g.openCLSupported
  | "rocm" => g.rocmSupported
  | _ => true

def capabilitiesMatch (g : GPUDevice) (req : List String) : Bool := req.all (capabilityMatch g)

def gpuMatchesReq (g : GPUDevice) (req : GPURequirement) : Bool :=
  if req.vendor ≠ "" ∧ g.vendor ≠ req.vendor then false
  else if req.minVRAMMB > 0 ∧ g.vramFreeMB < req.minVRAMMB then false
  else if req.minCompute ≠ "" ∧ computeCapabilityLess g.computeCapability req.minCompute then false
  else capabilitiesMatch g req.capabilities

def matchingGPUs (host : List GPUDevice) (req : GPURequirement) : List GPUDevice :=
  host.filter (gpuMatchesReq · req)

/-- How many GPUs a requirement takes: a zero or negative count means one. -/
def gpuNeed (req : GPURequirement) : ℤ := if req.count ≤ 0 then 1 else req.count

theorem gpuNeed_eq_max (req : GPURequirement) : gpuNeed req = max 1 req.count := by
  rw [gpuNeed]
  split <;> omega

/-! ### The order of compute capabilities -/

section Capability

variable {a b c : String} {p q : ℤ × ℤ}

theorem computeCapabilityLess_of_some (ha : parseComputeCapability a = some p)
    (hb : parseComputeCapability b = some q) :
    computeCapabilityLess a b = true ↔ toLex p < toLex q := by
  rw [computeCapabilityLess, ha, hb, Prod.Lex.toLex_lt_toLex]
  dsimp only
  split_ifs with h
  · simp [h]
  · simp [not_not.mp h]

theorem computeCapabilityLess_of_none
    (h : parseComputeCapability a = none ∨ parseComputeCapability b = none) :
    computeCapabilityLess a b = true ↔ a < b := by
  rw [computeCapabilityLess]
  split
  · next ha hb => simp [ha, hb] at h
  · exact decide_eq_true_iff

theorem computeCapabilityLess_asymm (h : computeCapabilityLess a b = true) :
    computeCapabilityLess b a = false := by
  rw [Bool.eq_false_iff]
  intro h'
  by_cases hnone : parseComputeCapability a = none ∨ parseComputeCapability b = none
  · rw [computeCapabilityLess_of_none hnone] at h
    rw [computeCapabilityLess_of_none hnone.symm] at h'
    exact lt_asymm h h'
  · obtain ⟨⟨p, ha⟩, q, hb⟩ := (not_or.mp hnone).imp Option.ne_none_iff_exists'.mp
      Option.ne_none_iff_exists'.mp
    rw [computeCapabilityLess_of_some ha hb] at h
    rw [computeCapabilityLess_of_some hb ha] at h'
    exact lt_asymm h h'

theorem computeCapabilityLess_self (a : String) : computeCapabilityLess a a = false := by
  rcases h : computeCapabilityLess a a
  · rfl
  · exact h.symm.trans (computeCapabilityLess_asymm h)

def isVersion (v : String) : Bool := (parseComputeCapability v).isSome

theorem computeCapabilityLess_trans (h : [a, b, c].countP isVersion ≠ 2)
    (hab : computeCapabilityLess a b = true) (hbc : computeCapabilityLess b c = true) :
    computeCapabilityLess a c = true := by
  rcases ha : parseComputeCapability a with _ | p <;>
    rcases hb : parseComputeCapability b with _ | q <;>
    rcases hc : parseComputeCapability c with _ | r
  case some.some.some =>
    rw [computeCapabilityLess_of_some ha hb] at hab
    rw [computeCapabilityLess_of_some hb hc] at hbc
    rw [computeCapabilityLess_of_some ha hc]
    exact hab.trans hbc
  case none.some.some | some.none.some | some.some.none =>
    exact absurd (by simp [isVersion, ha, hb, hc]) h
  -- otherwise all three comparisons are of texts
  all_goals
    rw [computeCapabilityLess_of_none (by simp [ha, hb])] at hab
    rw [computeCapabilityLess_of_none (by simp [hb, hc])] at hbc
    rw [computeCapabilityLess_of_none (by simp [ha, hc])]
    exact hab.trans hbc

theorem parseComputeCapability_text {major minor : List Char} {m n : ℕ} (hm : digits major = some m)
    (hn : digits minor = some n) (hm' : m < 2 ^ 63) (hn' : n < 2 ^ 63) :
    parseComputeCapability (String.ofList (major ++ '.' :: minor)) = some (↑m, ↑n) := by
  have hdigits : ∀ c ∈ major, decide (c ≠ '.') = true := by
    intro c hc
    rw [decide_eq_true_iff]
    rintro rfl
    cases isDigit_of_digits hm _ hc
  rw [parseComputeCapability, String.toList_ofList, span_eq_takeWhile_dropWhile,
    takeWhile_append_of_pos hdigits, dropWhile_append_of_pos hdigits]
  simp [atoi_of_digits hm hm', atoi_of_digits hn hn']

theorem gpuMatchesReq_of_less {g : GPUDevice} {req : GPURequirement}
    (h : [g.computeCapability, a, req.minCompute].countP isVersion ≠ 2)
    (hless : computeCapabilityLess a req.minCompute = true) (hmatch : gpuMatchesReq g req = true) :
    gpuMatchesReq g { req with minCompute := a } = true := by
  have hne : req.minCompute ≠ "" := by
    intro hempty
    rw [hempty, computeCapabilityLess_of_none (.inr rfl)] at hless
    exact not_lt_nil _ hless
  simp only [gpuMatchesReq, hne, ne_eq, not_false_eq_true, true_and] at hmatch ⊢
  by_cases hmin : computeCapabilityLess g.computeCapability a = true
  · rw [if_pos (computeCapabilityLess_trans h hmin hless)] at hmatch
    split_ifs at hmatch
  · rw [if_neg (not_and_of_not_right _ hmin)]
    split_ifs at hmatch ⊢
    exact hmatch

/-- **The comparison of compute capabilities** is irreflexive and asymmetric, and it is transitive
unless two of the three are versions and one is not, so that a device that satisfies a minimum
satisfies a smaller one. Versions come in the order of their numbers, and two numbers that fit 64
bits, with a dot between them, are a version. -/
theorem computeCapabilityLess_order (a b c : String) :
    computeCapabilityLess a a = false ∧
    (computeCapabilityLess a b = true → computeCapabilityLess b a = false) ∧
    ([a, b, c].countP isVersion ≠ 2 → computeCapabilityLess a b = true →
      computeCapabilityLess b c = true → computeCapabilityLess a c = true) ∧
    (∀ p q, parseComputeCapability a = some p → parseComputeCapability b = some q →
      (computeCapabilityLess a b = true ↔ toLex p < toLex q)) ∧
    (∀ major minor m n, digits major = some m → digits minor = some n → m < 2 ^ 63 → n < 2 ^ 63 →
      parseComputeCapability (String.ofList (major ++ '.' :: minor)) = some (↑m, ↑n)) ∧
    ∀ (g : GPUDevice) (req : GPURequirement),
      [g.computeCapability, a, req.minCompute].countP isVersion ≠ 2 →
      computeCapabilityLess a req.minCompute = true → gpuMatchesReq g req = true →
        gpuMatchesReq g { req with minCompute := a } = true :=
  ⟨computeCapabilityLess_self a, computeCapabilityLess_asymm, computeCapabilityLess_trans,
    fun _ _ => computeCapabilityLess_of_some, fun _ _ _ _ => parseComputeCapability_text,
    fun _ _ => gpuMatchesReq_of_less⟩

theorem computeCapabilityLess_order_ten :
    gpuMatchesReq { computeCapability := "12.0" } { minCompute := "9.0" } = true :=
  (computeCapabilityLess_order "9.0" "" "").2.2.2.2.2 { computeCapability := "12.0" }
    { minCompute := "10.0" } (by decide +kernel) (by decide +kernel) (by decide +kernel)

/-- **The comparison runs in a circle** through a text that is no version: a device that satisfies a
minimum does not satisfy a smaller one. And a number that does not fit 64 bits makes a text. -/
theorem computeCapabilityLess_cycle :
    (computeCapabilityLess "10.0" "5x" = true ∧ computeCapabilityLess "5x" "9.0" = true ∧
      computeCapabilityLess "9.0" "10.0" = true) ∧
    (gpuMatchesReq { computeCapability := "10.0" } { minCompute := "9.0" } = true ∧
      gpuMatchesReq { computeCapability := "10.0" } { minCompute := "5x" } = false) ∧
    computeCapabilityLess "10000000000000000000.0" "9.0" = true := by
  decide +kernel

end Capability

/-! ### Fitting -/

/-- The overcommit ratio in force: a non-positive one is ignored. -/
def overcommitOf (opts : Options) : ℚ :=
  if opts.overcommitRatio ≤ 0 then 1 else opts.overcommitRatio

def availCores (r : HostResources) (reserve overcommit : ℚ) : ℚ :=
  r.cpuCores * (r.availableCPUPercent - reserve) / 100 * overcommit

def availMemoryMB (r : HostResources) (reserve overcommit : ℚ) : ℚ :=
  r.memoryTotalMB.toNat * (r.availableMemoryPercent - reserve) / 100 * overcommit

def availDiskMB (r : HostResources) (reserve : ℚ) : ℚ :=
  r.diskTotalMB.toNat * (r.availableDiskPercent - reserve) / 100

variable (P : Platform)

/-- **Whether a host has enough resources for a container**, accounting for
reserves. -/
def canFit (opts : Options) (resources : Option HostResources) (req : ContainerRequirements) :
    Bool :=
  match resources with
  | none => false
  | some r =>
    let reserve := opts.reservePercent
    let overcommit := overcommitOf opts
    let availMB := availMemoryMB r reserve overcommit
    let availDisk := availDiskMB r reserve
    if req.cpuCores > 0 ∧ availCores r reserve overcommit < req.cpuCores then false
    else if req.memoryMB > 0 ∧ (availMB < 0 ∨ P.uint64Of availMB < req.memoryMB) then false
    else if req.diskMB > 0 ∧ (availDisk < 0 ∨ P.uint64Of availDisk < req.diskMB) then false
    else match req.gpu with
      | none => true
      | some g => gpuNeed g ≤ (matchingGPUs r.gpu g).length

/-- **What fitting means**, resource by resource. -/
theorem canFit_some_iff (opts : Options) (r : HostResources) (req : ContainerRequirements) :
    canFit P opts (some r) req = true ↔
      (0 < req.cpuCores → req.cpuCores ≤ availCores r opts.reservePercent (overcommitOf opts)) ∧
      (0 < req.memoryMB →
        0 ≤ availMemoryMB r opts.reservePercent (overcommitOf opts) ∧
        req.memoryMB ≤ P.uint64Of (availMemoryMB r opts.reservePercent (overcommitOf opts))) ∧
      (0 < req.diskMB →
        0 ≤ availDiskMB r opts.reservePercent ∧
        req.diskMB ≤ P.uint64Of (availDiskMB r opts.reservePercent)) ∧
      ∀ g, req.gpu = some g → gpuNeed g ≤ (matchingGPUs r.gpu g).length := by
  simp only [canFit]
  split_ifs with hcpu hmem hdisk
  · simp only [false_iff]
    rintro ⟨h, -⟩
    exact absurd (h hcpu.1) (not_le.mpr hcpu.2)
  · simp only [false_iff]
    rintro ⟨-, h, -⟩
    obtain ⟨h0, hle⟩ := h hmem.1
    rcases hmem.2 with hneg | hlt
    · exact absurd h0 (not_le.mpr hneg)
    · exact absurd hle (UInt64.not_le.mpr hlt)
  · simp only [false_iff]
    rintro ⟨-, -, h, -⟩
    obtain ⟨h0, hle⟩ := h hdisk.1
    rcases hdisk.2 with hneg | hlt
    · exact absurd h0 (not_le.mpr hneg)
    · exact absurd hle (UInt64.not_le.mpr hlt)
  · have hc : 0 < req.cpuCores →
        req.cpuCores ≤ availCores r opts.reservePercent (overcommitOf opts) :=
      fun h => not_lt.mp fun hlt => hcpu ⟨h, hlt⟩
    have hm : 0 < req.memoryMB →
        0 ≤ availMemoryMB r opts.reservePercent (overcommitOf opts) ∧
        req.memoryMB ≤ P.uint64Of (availMemoryMB r opts.reservePercent (overcommitOf opts)) :=
      fun h => ⟨not_lt.mp fun hlt => hmem ⟨h, Or.inl hlt⟩,
        UInt64.not_lt.mp fun hlt => hmem ⟨h, Or.inr hlt⟩⟩
    have hd : 0 < req.diskMB → 0 ≤ availDiskMB r opts.reservePercent ∧
        req.diskMB ≤ P.uint64Of (availDiskMB r opts.reservePercent) :=
      fun h => ⟨not_lt.mp fun hlt => hdisk ⟨h, Or.inl hlt⟩,
        UInt64.not_lt.mp fun hlt => hdisk ⟨h, Or.inr hlt⟩⟩
    cases hg : req.gpu with
    | none => simpa using ⟨hc, hm, hd⟩
    | some g =>
      simp only [decide_eq_true_eq, Option.some.injEq, forall_eq']
      exact ⟨fun h => ⟨hc, hm, hd, h⟩, fun h => h.2.2.2⟩

theorem exists_of_canFit {opts : Options} {resources : Option HostResources}
    {req : ContainerRequirements} (h : canFit P opts resources req = true) :
    ∃ r, resources = some r := by
  cases resources with
  | none => simp [canFit] at h
  | some r => exact ⟨r, rfl⟩

/-! ### Scoring -/

/-- `v`, moved into the interval from `lo` to `hi`. -/
def clamp (v lo hi : ℚ) : ℚ := if v < lo then lo else if v > hi then hi else v

theorem clamp_mem_Icc (v : ℚ) : clamp v 0 1 ∈ Set.Icc (0 : ℚ) 1 := by
  rw [clamp]
  split_ifs with h1 h2
  · simp
  · simp
  · exact ⟨not_lt.mp h1, not_lt.mp h2⟩

def scoreCPU (r : HostResources) (req : ContainerRequirements) (reserve overcommit : ℚ) : ℚ :=
  let avail := r.availableCPUPercent - reserve
  if avail ≤ 0 then 0
  else if req.cpuCores > 0 ∧ r.cpuCores > 0 then
    if availCores r reserve overcommit < req.cpuCores then 0
    else clamp ((availCores r reserve overcommit - req.cpuCores) / r.cpuCores) 0 1
  else clamp (avail / 100) 0 1

def scoreMemory (r : HostResources) (req : ContainerRequirements) (reserve overcommit : ℚ) : ℚ :=
  let avail := r.availableMemoryPercent - reserve
  if avail ≤ 0 then 0
  else if req.memoryMB > 0 ∧ r.memoryTotalMB > 0 then
    let availMB := availMemoryMB r reserve overcommit
    if P.uint64Of availMB < req.memoryMB then 0
    else clamp ((availMB - req.memoryMB.toNat) / r.memoryTotalMB.toNat) 0 1
  else clamp (avail / 100) 0 1

def scoreDisk (r : HostResources) (req : ContainerRequirements) (reserve : ℚ) : ℚ :=
  let avail := r.availableDiskPercent - reserve
  if avail ≤ 0 then 0
  else if req.diskMB > 0 ∧ r.diskTotalMB > 0 then
    let availMB := availDiskMB r reserve
    if P.uint64Of availMB < req.diskMB then 0
    else clamp ((availMB - req.diskMB.toNat) / r.diskTotalMB.toNat) 0 1
  else clamp (avail / 100) 0 1

/-- The network part of a score: lower usage is better. The two rates are added
as 64-bit words. -/
def scoreNetwork (r : HostResources) : ℚ :=
  let maxBytesPerSec : ℚ := 125000000
  let totalUsage : ℚ := (r.networkRxBytesPerSec + r.networkTxBytesPerSec).toNat
  if totalUsage ≥ maxBytesPerSec then 0 else 1 - totalUsage / maxBytesPerSec

/-- The matching GPU with the most free VRAM, the first of several. -/
def mostFreeVRAM (best : GPUDevice) (rest : List GPUDevice) : GPUDevice :=
  rest.foldl (fun best g => if g.vramFreeMB > best.vramFreeMB then g else best) best

/-- The GPU part of a score: VRAM headroom above the requirement. -/
def scoreGPU (r : HostResources) (req : ContainerRequirements) : ℚ :=
  match req.gpu with
  | none => 0
  | some g =>
    match matchingGPUs r.gpu g with
    | [] => 0
    | first :: rest =>
      let best := mostFreeVRAM first rest
      if best.vramFreeMB ≤ 0 then 0
      else clamp ((wrapInt64 (best.vramFreeMB - g.minVRAMMB) : ℚ) / best.vramFreeMB) 0 1

/-- **A host's suitability for a container**, from `0` (worst) to `1` (best). -/
def score (opts : Options) (resources : Option HostResources) (req : ContainerRequirements) : ℚ :=
  match resources with
  | none => 0
  | some r =>
    let reserve := opts.reservePercent
    let overcommit := overcommitOf opts
    clamp (scoreCPU r req reserve overcommit * opts.cpuWeight +
      scoreMemory P r req reserve overcommit * opts.memoryWeight +
      scoreDisk P r req reserve * opts.diskWeight +
      scoreNetwork r * opts.networkWeight +
      scoreGPU r req * opts.gpuWeight) 0 1

/-- **A score lies between `0` and `1`**, whatever the weights. -/
theorem score_mem_Icc (opts : Options) (resources : Option HostResources)
    (req : ContainerRequirements) : score P opts resources req ∈ Set.Icc (0 : ℚ) 1 := by
  cases resources with
  | none => simp [score]
  | some r => exact clamp_mem_Icc _

theorem score_nonneg (opts : Options) (resources : Option HostResources)
    (req : ContainerRequirements) : 0 ≤ score P opts resources req :=
  (score_mem_Icc P opts resources req).1

end Containers.Scheduler
