import Containers.Lib.Pool
import Containers.Scheduler.Candidates

/-!
# A batch never over-commits a host

Each resource of a host is a pool accounted for in percent (`Pool`): what `canFit` admits is what
the pool has room for, and `deductCapacity` is a charge. A batch under a resource-based strategy
therefore keeps, for every host, a ledger (`Ledger`) of what it has placed there against the working
snapshot; the bound on the sums is the bound of the pools.
-/

namespace Containers.Scheduler

open Go Remote List

variable {p : Pool} {spent used : ℚ} {w : UInt64}

/-! ### What a batch has placed on a host -/

/-- The requirements a list of decisions places on `h`. -/
def placedReqs (ds : List PlacementDecision) (h : String) : List ContainerRequirements :=
  (ds.filter (·.PlacedOn h)).map (·.requirement)

theorem placedReqs_append_placed {ds : List PlacementDecision} {d : PlacementDecision} {h : String}
    (hd : d.PlacedOn h) :
    placedReqs (ds ++ [d]) h = placedReqs ds h ++ [d.requirement] := by
  simp [placedReqs, hd]

theorem placedReqs_append_other {ds : List PlacementDecision} {d : PlacementDecision} {h : String}
    (hd : ¬d.PlacedOn h) : placedReqs (ds ++ [d]) h = placedReqs ds h := by
  simp [placedReqs, hd]

/-! ### What a deduction changes -/

section Deduct

variable (P : Platform) (r : HostResources) (req : ContainerRequirements)

@[simp] theorem deductCapacity_cpuCores : (deductCapacity P r req).cpuCores = r.cpuCores := by
  rw [deductCapacity_eq]

@[simp] theorem deductCapacity_memoryTotalMB :
    (deductCapacity P r req).memoryTotalMB = r.memoryTotalMB := by
  rw [deductCapacity_eq]

@[simp] theorem deductCapacity_diskTotalMB :
    (deductCapacity P r req).diskTotalMB = r.diskTotalMB := by
  rw [deductCapacity_eq]

theorem deductCapacity_cpuPercent :
    (deductCapacity P r req).cpuPercent =
      if req.cpuCores > 0 ∧ r.cpuCores > 0 then
        capPercent (r.cpuPercent + req.cpuCores / r.cpuCores * 100)
      else r.cpuPercent := by
  rw [deductCapacity_eq]

theorem deductCapacity_memoryPercent :
    (deductCapacity P r req).memoryPercent =
      if req.memoryMB > 0 ∧ r.memoryTotalMB > 0 then
        capPercent (r.memoryPercent + (req.memoryMB.toNat : ℚ) / r.memoryTotalMB.toNat * 100)
      else r.memoryPercent := by
  rw [deductCapacity_eq]

theorem deductCapacity_diskPercent :
    (deductCapacity P r req).diskPercent =
      if req.diskMB > 0 ∧ r.diskTotalMB > 0 then
        capPercent (r.diskPercent + (req.diskMB.toNat : ℚ) / r.diskTotalMB.toNat * 100)
      else r.diskPercent := by
  rw [deductCapacity_eq]

end Deduct

/-! ### The pools of a host -/

section Pools

variable {opts : Options} (hreserve : 0 ≤ opts.reservePercent)
  (hover : 1 ≤ opts.overcommitRatio)

def cpuPool (r : HostResources) (hcores : 0 ≤ r.cpuCores) : Pool where
  total := r.cpuCores
  initial := r.cpuPercent
  reserve := opts.reservePercent
  overcommit := opts.overcommitRatio
  total_nonneg := by exact_mod_cast hcores
  reserve_nonneg := hreserve
  one_le_overcommit := hover

def memoryPool (r : HostResources) : Pool where
  total := r.memoryTotalMB.toNat
  initial := r.memoryPercent
  reserve := opts.reservePercent
  overcommit := opts.overcommitRatio
  total_nonneg := by positivity
  reserve_nonneg := hreserve
  one_le_overcommit := hover

/-- The disk space of a host, as a pool that is never overcommitted. -/
def diskPool (r : HostResources) : Pool where
  total := r.diskTotalMB.toNat
  initial := r.diskPercent
  reserve := opts.reservePercent
  overcommit := 1
  total_nonneg := by positivity
  reserve_nonneg := hreserve
  one_le_overcommit := le_refl 1

theorem cpuPool_budget (r : HostResources) (hcores : 0 ≤ r.cpuCores) :
    (cpuPool hreserve hover r hcores).budget =
      r.cpuCores * (100 - r.cpuPercent - opts.reservePercent) / 100 * opts.overcommitRatio := by
  simp only [Pool.budget, Pool.room, cpuPool]

theorem memoryPool_budget (r : HostResources) :
    (memoryPool hreserve hover r).budget = r.memoryTotalMB.toNat *
      (100 - r.memoryPercent - opts.reservePercent) / 100 * opts.overcommitRatio := by
  simp only [Pool.budget, Pool.room, memoryPool]

theorem diskPool_budget (r : HostResources) :
    (diskPool hreserve r).budget =
      r.diskTotalMB.toNat * (100 - r.diskPercent - opts.reservePercent) / 100 := by
  simp only [Pool.budget, Pool.room, diskPool, mul_one]

include hover in
theorem overcommitOf_eq : overcommitOf opts = opts.overcommitRatio :=
  if_neg (not_le.mpr (lt_of_lt_of_le one_pos hover))

/-! ### The ledger of a host -/

/-- **The ledger of the host `h`**: its working snapshot `r` has the sizes of the
original `r₀`, and its percentages account for what `ds` places on it. -/
structure Ledger (ds : List PlacementDecision) (h : String) (r₀ r : HostResources)
    (hcores : 0 ≤ r₀.cpuCores) : Prop where
  cpuCores : r.cpuCores = r₀.cpuCores
  memoryTotalMB : r.memoryTotalMB = r₀.memoryTotalMB
  diskTotalMB : r.diskTotalMB = r₀.diskTotalMB
  cpu : (cpuPool hreserve hover r₀ hcores).Account
    ((placedReqs ds h).map (·.cpuCores)).sum r.cpuPercent
  memory : (memoryPool hreserve hover r₀).Account
    ((placedReqs ds h).map fun req => (req.memoryMB.toNat : ℚ)).sum r.memoryPercent
  disk : (diskPool hreserve r₀).Account
    ((placedReqs ds h).map fun req => (req.diskMB.toNat : ℚ)).sum r.diskPercent

variable {hreserve hover} {h : String} {r₀ r : HostResources}

theorem ledger_initial (hcores : 0 ≤ r₀.cpuCores) : Ledger hreserve hover [] h r₀ r₀ hcores where
  cpuCores := rfl
  memoryTotalMB := rfl
  diskTotalMB := rfl
  cpu := Pool.account_initial _
  memory := Pool.account_initial _
  disk := Pool.account_initial _

variable {ds : List PlacementDecision} {d : PlacementDecision} {hcores : 0 ≤ r₀.cpuCores}

theorem Ledger.other (hl : Ledger hreserve hover ds h r₀ r hcores) (hd : ¬d.PlacedOn h) :
    Ledger hreserve hover (ds ++ [d]) h r₀ r hcores where
  cpuCores := hl.cpuCores
  memoryTotalMB := hl.memoryTotalMB
  diskTotalMB := hl.diskTotalMB
  cpu := by rw [placedReqs_append_other hd]; exact hl.cpu
  memory := by rw [placedReqs_append_other hd]; exact hl.memory
  disk := by rw [placedReqs_append_other hd]; exact hl.disk

/-! ### The step of a pool -/

/-- **Deducting a request that fits keeps the account**: a request of nothing
changes nothing, and a positive one is a charge. -/
theorem account_deduct {c : ℚ} (hp : p.Account spent used) (hc : 0 ≤ c)
    (hroom : 0 < c → c ≤ p.room used) :
    p.Account (spent + c)
      (if c > 0 ∧ p.total > 0 then capPercent (used + c / p.total * 100) else used) := by
  rcases hc.eq_or_lt with rfl | hpos
  · rw [add_zero]
    exact hp
  · rw [if_pos ⟨hpos, (Pool.of_le_room hpos (hroom hpos)).1⟩, capPercent_eq_min]
    exact hp.charge hpos (hroom hpos)

theorem toNat_pos_iff : w > 0 ↔ (w.toNat : ℚ) > 0 := by
  rw [gt_iff_lt, gt_iff_lt, Nat.cast_pos]
  exact Iff.rfl

variable {P : Platform}

theorem account_deduct_word {total : UInt64} (hp : p.Account spent used)
    (htotal : p.total = total.toNat)
    (hroom : 0 < w → 0 ≤ p.room used ∧ w ≤ P.uint64Of (p.room used)) :
    p.Account (spent + w.toNat) (if w > 0 ∧ total > 0 then
      capPercent (used + (w.toNat : ℚ) / total.toNat * 100) else used) := by
  simp only [toNat_pos_iff, ← htotal]
  refine account_deduct hp (by positivity) fun hpos => ?_
  obtain ⟨hnonneg, hle⟩ := hroom (toNat_pos_iff.mpr hpos)
  exact le_trans (by exact_mod_cast UInt64.le_iff_toNat_le.mp hle) (P.uint64Of_le hnonneg)

/-- **The step of the ledger**: a container placed where it fits, and deducted, is
accounted for. -/
theorem Ledger.placed (hl : Ledger hreserve hover ds h r₀ r hcores) (hd : d.PlacedOn h)
    (hfit : canFit P opts (some r) d.requirement = true) (hreq : 0 ≤ d.requirement.cpuCores) :
    Ledger hreserve hover (ds ++ [d]) h r₀ (deductCapacity P r d.requirement) hcores := by
  obtain ⟨hc, hm, hk, -⟩ := (canFit_some_iff P opts r d.requirement).mp hfit
  rw [overcommitOf_eq hover] at hc hm
  -- what is open is the room of the pools, because the sizes have not changed
  have hcpu : availCores r opts.reservePercent opts.overcommitRatio =
      (cpuPool hreserve hover r₀ hcores).room r.cpuPercent := by
    rw [availCores, hl.cpuCores]
    rfl
  have hmem : availMemoryMB r opts.reservePercent opts.overcommitRatio =
      (memoryPool hreserve hover r₀).room r.memoryPercent := by
    rw [availMemoryMB, hl.memoryTotalMB]
    rfl
  have hdisk : availDiskMB r opts.reservePercent = (diskPool hreserve r₀).room r.diskPercent := by
    rw [availDiskMB, hl.diskTotalMB, Pool.room, diskPool, mul_one]
    rfl
  rw [hcpu] at hc
  rw [hmem] at hm
  rw [hdisk] at hk
  have hsum : ∀ f : ContainerRequirements → ℚ, ((placedReqs (ds ++ [d]) h).map f).sum =
      ((placedReqs ds h).map f).sum + f d.requirement := by
    simp [placedReqs_append_placed hd]
  refine ⟨by simp [hl.cpuCores], by simp [hl.memoryTotalMB], by simp [hl.diskTotalMB], ?_, ?_, ?_⟩
  · rw [hsum, deductCapacity_cpuPercent, hl.cpuCores]
    simpa [cpuPool] using account_deduct hl.cpu hreq hc
  · rw [hsum, deductCapacity_memoryPercent, hl.memoryTotalMB]
    exact account_deduct_word hl.memory rfl hm
  · rw [hsum, deductCapacity_diskPercent, hl.diskTotalMB]
    exact account_deduct_word hl.disk rfl hk

/-! ### The batch -/

/-- **The books of a batch**: every probed host has its ledger, and on a host
without a snapshot nothing is placed. -/
structure Books (hreserve : 0 ≤ opts.reservePercent) (hover : 1 ≤ opts.overcommitRatio)
    (snapshots : Snapshots) (b : BatchState) : Prop where
  probed : ∀ h r₀, snapshots.lookup h = some (some r₀) → ∀ hcores : 0 ≤ r₀.cpuCores,
    ∃ r, b.working.lookup h = some (some r) ∧ Ledger hreserve hover b.decisions h r₀ r hcores
  unprobed : ∀ h, (∀ r, snapshots.lookup h ≠ some (some r)) →
    (∀ r, b.working.lookup h ≠ some (some r)) ∧ ∀ d ∈ b.decisions, ¬d.PlacedOn h

theorem books_initial (snapshots : Snapshots) (s : DefaultScheduler) :
    Books hreserve hover snapshots ⟨s, snapshots, []⟩ where
  probed h r₀ hr₀ hcores := ⟨r₀, hr₀, ledger_initial hcores⟩
  unprobed h hnone := ⟨hnone, by simp⟩

/-- **The step of the books**: one turn of the batch keeps them. -/
theorem Books.step {snapshots : Snapshots} {b : BatchState} (hb : Books hreserve hover snapshots b)
    (hs : ResourceBased b.sched.opts.strategy) (hopts : b.sched.opts = opts)
    (hosts : List RemoteHost) {req : ContainerRequirements} (hreq : 0 ≤ req.cpuCores) :
    Books hreserve hover snapshots (batchStep P hosts b req) := by
  obtain ⟨d, rfl, hds, ⟨hname, hwork⟩ | ⟨hname, ⟨r, hr, hfit⟩, hwork⟩⟩ :=
    batchStep_cases (P := P) hs hosts req
  · -- placed nowhere
    have hnot : ∀ h, ¬d.PlacedOn h := fun h hd => hd.1 hname
    refine ⟨fun h r₀ hr₀ hcores => ?_, fun h hnone => ?_⟩
    · obtain ⟨r, hr, hl⟩ := hb.probed h r₀ hr₀ hcores
      rw [hwork, hds]
      exact ⟨r, hr, hl.other (hnot h)⟩
    · rw [hwork, hds]
      obtain ⟨hw, hd⟩ := hb.unprobed h hnone
      refine ⟨hw, fun e he => ?_⟩
      rcases mem_append.mp he with he | he
      · exact hd e he
      · rw [mem_singleton.mp he]
        exact hnot h
  · rw [hopts] at hfit
    refine ⟨fun h r₀ hr₀ hcores => ?_, fun h hnone => ?_⟩
    · obtain ⟨r', hr', hl⟩ := hb.probed h r₀ hr₀ hcores
      rw [hwork, hds]
      by_cases hh : h = d.hostName
      · subst hh
        obtain rfl : r = r' := by
          rw [hr] at hr'
          simpa using hr'
        exact ⟨_, lookup_deductAt_self P hr, hl.placed ⟨hname, rfl⟩ hfit hreq⟩
      · exact ⟨r', by rw [lookup_deductAt_of_ne P hh]; exact hr', hl.other fun hd => hh hd.2.symm⟩
    · -- the host that was chosen has a snapshot, so it is another one
      obtain ⟨hw, hd⟩ := hb.unprobed h hnone
      have hh : h ≠ d.hostName := fun heq => hw r (heq ▸ hr)
      rw [hwork, hds]
      refine ⟨by rw [lookup_deductAt_of_ne P hh]; exact hw, fun e he => ?_⟩
      rcases mem_append.mp he with he | he
      · exact hd e he
      · rw [mem_singleton.mp he]
        exact fun hd => hh hd.2.symm

end Pools

/-- A list of requests against a bound: within it in total, or – when it is
negative – without a positive request. -/
def Within (bound : ℚ) (requests : List ℚ) : Prop :=
  (0 ≤ bound → requests.sum ≤ bound) ∧ (bound < 0 → ∀ c ∈ requests, c ≤ 0)

theorem within_of_account {requests : List ℚ} (h : p.Account requests.sum used)
    (hnonneg : ∀ c ∈ requests, 0 ≤ c) :
    Within p.budget requests := by
  obtain ⟨hle, hzero⟩ := h.spent_le
  refine ⟨hle, fun hneg c hc => ?_⟩
  have hmem : c ≤ requests.sum := single_le_sum hnonneg c hc
  rw [hzero hneg] at hmem
  exact hmem

/-- **A batch never over-commits a host.** Under a resource-based strategy, what the
decisions of one `ScheduleBatch` place on a host stays, resource by resource, within
what its original snapshot leaves open; and nothing is placed on a host without a
snapshot. -/
theorem scheduleBatch_within_capacity (P : Platform) (s : DefaultScheduler)
    (snapshots : Snapshots) (hosts : List RemoteHost) (reqs : List ContainerRequirements)
    (hstrategy : ResourceBased s.opts.strategy) (hreserve : 0 ≤ s.opts.reservePercent)
    (hover : 1 ≤ s.opts.overcommitRatio)
    (hcores : ∀ h r, snapshots.lookup h = some (some r) → 0 ≤ r.cpuCores)
    (hreqs : ∀ req ∈ reqs, 0 ≤ req.cpuCores) (h : String) :
    let placed := placedReqs (scheduleBatch P s snapshots hosts reqs).1.decisions h
    ((∀ r, snapshots.lookup h ≠ some (some r)) → placed = []) ∧
    ∀ r, snapshots.lookup h = some (some r) →
      Within (r.cpuCores * (100 - r.cpuPercent - s.opts.reservePercent) / 100 *
          s.opts.overcommitRatio) (placed.map (·.cpuCores)) ∧
      Within (r.memoryTotalMB.toNat * (100 - r.memoryPercent - s.opts.reservePercent) / 100 *
          s.opts.overcommitRatio) (placed.map fun req => (req.memoryMB.toNat : ℚ)) ∧
      Within (r.diskTotalMB.toNat * (100 - r.diskPercent - s.opts.reservePercent) / 100)
        (placed.map fun req => (req.diskMB.toNat : ℚ)) := by
  rw [scheduleBatch_decisions]
  have hbooks : Books hreserve hover snapshots
      (reqs.foldl (batchStep P hosts) ⟨s, snapshots, []⟩) := by
    refine batch_induction P (books_initial snapshots s) fun b hopts hb req hreq => ?_
    exact hb.step (hopts ▸ hstrategy) hopts hosts (hreqs req hreq)
  have hplaced : ∀ req ∈ placedReqs
      (reqs.foldl (batchStep P hosts) ⟨s, snapshots, []⟩).decisions h, req ∈ reqs := by
    intro req hreq
    obtain ⟨d, hd, rfl⟩ := mem_map.mp hreq
    have hmem := mem_map_of_mem (f := (·.requirement)) (mem_filter.mp hd).1
    rwa [← scheduleBatch_decisions, scheduleBatch_requirements] at hmem
  refine ⟨fun hnone => ?_, fun r hr => ?_⟩
  · have hnot := (hbooks.unprobed h hnone).2
    simp only [placedReqs, map_eq_nil_iff, filter_eq_nil_iff, decide_eq_true_eq]
    exact hnot
  · obtain ⟨r', -, hl⟩ := hbooks.probed h r hr (hcores h r hr)
    rw [← cpuPool_budget hreserve hover r (hcores h r hr), ← memoryPool_budget hreserve hover r,
      ← diskPool_budget hreserve r]
    refine ⟨within_of_account hl.cpu fun c hc => ?_, within_of_account hl.memory fun c hc => ?_,
      within_of_account hl.disk fun c hc => ?_⟩
    · obtain ⟨req, hreq, rfl⟩ := mem_map.mp hc
      exact hreqs req (hplaced req hreq)
    · obtain ⟨req, -, rfl⟩ := mem_map.mp hc
      positivity
    · obtain ⟨req, -, rfl⟩ := mem_map.mp hc
      positivity

def eightCores : HostResources :=
  { cpuCores := 8, memoryTotalMB := 16384, diskTotalMB := 500000 }

def eightCoresOnly : Snapshots := GoMap.ofList [("h1", some eightCores)]

def threeOfFiveCores : List ContainerRequirements :=
  [{ name := "c1", cpuCores := 5 }, { name := "c2", cpuCores := 5 },
    { name := "c3", cpuCores := 5 }]

/-- Of three containers of five cores, one lands on a host with eight. -/
theorem scheduleBatch_within_capacity_eightCores :
    let placed := placedReqs (scheduleBatch Platform.reference (newScheduler {}) eightCoresOnly
      [{ name := "h1" }] threeOfFiveCores).1.decisions "h1"
    placed.map (·.cpuCores) = [5] ∧
    Within (eightCores.cpuCores * (100 - eightCores.cpuPercent - 10) / 100 * 1)
      (placed.map (·.cpuCores)) := by
  refine ⟨by decide +kernel, ?_⟩
  have hcores : ∀ h r, eightCoresOnly.lookup h = some (some r) → 0 ≤ r.cpuCores := by
    intro h r hr
    have hmem := GoMap.mem_of_lookup_ofList hr
    simp only [mem_singleton, Prod.mk.injEq, Option.some.injEq] at hmem
    simp [hmem.2, eightCores]
  exact ((scheduleBatch_within_capacity Platform.reference (newScheduler {}) eightCoresOnly
    [{ name := "h1" }] threeOfFiveCores (Or.inl rfl) (by simp [newScheduler])
    (by simp [newScheduler]) hcores (by simp [threeOfFiveCores]) "h1").2 eightCores rfl).1

end Containers.Scheduler
