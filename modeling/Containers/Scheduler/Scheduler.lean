import Containers.Scheduler.Strategies

/-!
# The scheduler

`pkg/scheduler/scheduler.go`: the state of a `DefaultScheduler`, one placement (`scheduleOne`), and
the operations a caller has – a single `Schedule`, a `ScheduleBatch` and a `Release`. The host
manager is the caller's: what it probes and lists enters each call as an argument, so a run of calls
may see different snapshots and different orders every time.

A batch is a fold of `batchStep`, over a working copy of the snapshots from which each placement is
deducted. Snapshots are values here, so the deep copy the source takes (`cloneSnapshots`) is the
identity and the caller's snapshots are out of reach by construction; a nil entry stays nil.
-/

namespace Containers.Scheduler

open Go Remote List AList

variable {req : ContainerRequirements} {working : Snapshots} {k name : String}

/-! ### State -/

/-- A scheduler: its options, the containers it has placed on each host, and its
rotation counter. A host missing from the placement map has placed none; a count is a
64-bit `int`, which wraps. -/
structure DefaultScheduler where
  opts : Options
  placements : String → ℤ
  rrCounter : UInt64

/-- `NewScheduler`. -/
def newScheduler (opts : Options) : DefaultScheduler :=
  { opts := opts, placements := fun _ => 0, rrCounter := 0 }

namespace DefaultScheduler

/-- `if decision.HostName != "" { s.placements[decision.HostName]++ }`. -/
def place (s : DefaultScheduler) (hostName : String) : DefaultScheduler :=
  if hostName ≠ "" then
    { s with
      placements := Function.update s.placements hostName (wrapInt64 (s.placements hostName + 1)) }
  else s

/-- **`Release`**: a container has left `hostName`. -/
def release (s : DefaultScheduler) (hostName : String) : DefaultScheduler :=
  if hostName = "" then s
  else if s.placements hostName > 0 then
    { s with placements := Function.update s.placements hostName (s.placements hostName - 1) }
  else s

@[simp] theorem place_opts (s : DefaultScheduler) (h : String) : (s.place h).opts = s.opts := by
  rw [place]
  split <;> rfl

@[simp] theorem place_rrCounter (s : DefaultScheduler) (h : String) :
    (s.place h).rrCounter = s.rrCounter := by
  rw [place]
  split <;> rfl

theorem place_placements (s : DefaultScheduler) (h x : String) :
    (s.place h).placements x =
      if h ≠ "" ∧ x = h then wrapInt64 (s.placements x + 1) else s.placements x := by
  rw [place]
  by_cases hh : h = ""
  · simp [hh]
  · by_cases hx : x = h
    · subst hx
      simp [hh]
    · simp [hh, hx]

end DefaultScheduler

/-! ### Deducting a placement from a working snapshot -/

/-- `capPercent`. -/
def capPercent (v : ℚ) : ℚ := if v > 100 then 100 else v

theorem capPercent_eq_min (v : ℚ) : capPercent v = min v 100 := by
  rw [capPercent]
  split_ifs with h
  · rw [min_eq_right (le_of_lt h)]
  · rw [min_eq_left (not_lt.mp h)]

/-- The GPU of a host that a requirement may take, with where it stands in the
list. -/
structure GPUIdx where
  idx : ℕ
  free : ℤ

variable (P : Platform)

/-- The indices `deductGPU` drops: the first of the matching GPUs, by decreasing
free VRAM. -/
def droppedGPUs (gpus : List GPUDevice) (req : GPURequirement) : List ℕ :=
  let cand := (gpus.zipIdx.filter fun g => gpuMatchesReq g.1 req).map fun g =>
    (⟨g.2, g.1.vramFreeMB⟩ : GPUIdx)
  ((P.sortSlice (fun a b => decide (a.free > b.free)) cand).take (gpuNeed req).toNat).map (·.idx)

/-- **`deductGPU`**: the GPUs a placed container takes leave the snapshot. -/
def deductGPU (r : HostResources) (req : GPURequirement) : HostResources :=
  { r with gpu := dropIdx (droppedGPUs P r.gpu req) r.gpu }

/-- **`deductCapacity`**: a working snapshot, after a container was placed on
it. -/
def deductCapacity (r : HostResources) (req : ContainerRequirements) : HostResources :=
  let r :=
    if req.cpuCores > 0 ∧ r.cpuCores > 0 then
      { r with cpuPercent := capPercent (r.cpuPercent + req.cpuCores / r.cpuCores * 100) }
    else r
  let r :=
    if req.memoryMB > 0 ∧ r.memoryTotalMB > 0 then
      { r with
        memoryPercent := capPercent
          (r.memoryPercent + (req.memoryMB.toNat : ℚ) / r.memoryTotalMB.toNat * 100)
        memoryUsedMB := r.memoryUsedMB + req.memoryMB }
    else r
  let r :=
    if req.diskMB > 0 ∧ r.diskTotalMB > 0 then
      { r with
        diskPercent := capPercent
          (r.diskPercent + (req.diskMB.toNat : ℚ) / r.diskTotalMB.toNat * 100)
        diskUsedMB := r.diskUsedMB + req.diskMB }
    else r
  let r := { r with runningContainers := r.runningContainers + 1 }
  match req.gpu with
  | none => r
  | some g => deductGPU P r g

/-- **A deduction, field by field**: the statements of `deductCapacity` do not get in each
other's way. -/
theorem deductCapacity_eq (r : HostResources) (req : ContainerRequirements) :
    deductCapacity P r req = { r with
      cpuPercent :=
        if req.cpuCores > 0 ∧ r.cpuCores > 0 then
          capPercent (r.cpuPercent + req.cpuCores / r.cpuCores * 100)
        else r.cpuPercent
      memoryPercent :=
        if req.memoryMB > 0 ∧ r.memoryTotalMB > 0 then
          capPercent (r.memoryPercent + (req.memoryMB.toNat : ℚ) / r.memoryTotalMB.toNat * 100)
        else r.memoryPercent
      memoryUsedMB :=
        if req.memoryMB > 0 ∧ r.memoryTotalMB > 0 then r.memoryUsedMB + req.memoryMB
        else r.memoryUsedMB
      diskPercent :=
        if req.diskMB > 0 ∧ r.diskTotalMB > 0 then
          capPercent (r.diskPercent + (req.diskMB.toNat : ℚ) / r.diskTotalMB.toNat * 100)
        else r.diskPercent
      diskUsedMB :=
        if req.diskMB > 0 ∧ r.diskTotalMB > 0 then r.diskUsedMB + req.diskMB else r.diskUsedMB
      runningContainers := r.runningContainers + 1
      gpu := req.gpu.elim r.gpu fun g => dropIdx (droppedGPUs P r.gpu g) r.gpu } := by
  simp only [deductCapacity]
  split_ifs <;> cases req.gpu <;> rfl

/-- `deductCapacity(working[name], req)`: a nil or absent snapshot is left
alone. -/
def deductAt (working : Snapshots) (name : String) (req : ContainerRequirements) : Snapshots :=
  match working.lookup name with
  | some (some r) => working.insert name (some (deductCapacity P r req))
  | _ => working

/-- **Deducting keeps the keys**: what was probed stays probed. -/
theorem mem_deductAt : k ∈ deductAt P working name req ↔ k ∈ working := by
  rw [deductAt]
  split
  · rename_i r hr
    exact GoMap.mem_insert_of_mem (lookup_isSome.mp (by rw [hr]; rfl))
  · exact Iff.rfl

theorem lookup_deductAt_of_ne (h : k ≠ name) :
    (deductAt P working name req).lookup k = working.lookup k := by
  rw [deductAt]
  split
  · rw [lookup_insert_ne h]
  · rfl

theorem lookup_deductAt_self {r : HostResources} (h : working.lookup name = some (some r)) :
    (deductAt P working name req).lookup name = some (some (deductCapacity P r req)) := by
  rw [deductAt, h]
  exact lookup_insert _

/-! ### One placement -/

def minSelectedScore : ℚ := 1 / 10000

/-- The decision of a strategy, before the floor on its score, with the counter it
leaves behind. -/
def strategyDecision (s : DefaultScheduler) (snapshots : Snapshots) (hosts : List RemoteHost)
    (req : ContainerRequirements) : PlacementDecision × UInt64 :=
  match s.opts.strategy with
  | .roundRobin =>
    scheduleRoundRobin s.opts (hostsPresentInSnapshots snapshots hosts) req s.rrCounter
  | .affinity => (scheduleAffinity P s.opts snapshots hosts req, s.rrCounter)
  | .spread =>
    (scheduleSpread P s.opts (hostsPresentInSnapshots snapshots hosts) req s.placements,
      s.rrCounter)
  | .binPack => (scheduleBinPack P s.opts snapshots hosts req, s.rrCounter)
  | .gpuAffinity =>
    let picked := pickGPUAffinity P s.opts snapshots req
    ({ requirement := req, hostName := picked.1,
       score := score P s.opts (snapshots.index none picked.1) req,
       reason := picked.2 }, s.rrCounter)
  | .resourceAware => (scheduleResourceAware P s.opts snapshots hosts req, s.rrCounter)

/-- A selected host never reports the score `0`, which is the sentinel of an
unplaced container. -/
def floorScore (d : PlacementDecision) : PlacementDecision :=
  if d.hostName ≠ "" ∧ d.score = 0 then { d with score := minSelectedScore } else d

/-- **`scheduleOne`**: the decision for one container, with the scheduler it leaves
behind. -/
def scheduleOne (s : DefaultScheduler) (snapshots : Snapshots) (hosts : List RemoteHost)
    (req : ContainerRequirements) : PlacementDecision × DefaultScheduler :=
  let d := strategyDecision P s snapshots hosts req
  (floorScore d.1, { s with rrCounter := d.2 })

@[simp] theorem floorScore_hostName (d : PlacementDecision) :
    (floorScore d).hostName = d.hostName := by
  rw [floorScore]
  split <;> rfl

@[simp] theorem floorScore_requirement (d : PlacementDecision) :
    (floorScore d).requirement = d.requirement := by
  rw [floorScore]
  split <;> rfl

section Scheduling

variable (s : DefaultScheduler) (snapshots : Snapshots) (hosts : List RemoteHost)

@[simp] theorem scheduleOne_opts (req : ContainerRequirements) :
    (scheduleOne P s snapshots hosts req).2.opts = s.opts := rfl

@[simp] theorem scheduleOne_placements (req : ContainerRequirements) :
    (scheduleOne P s snapshots hosts req).2.placements = s.placements := rfl

/-- **A decision is about the requirement it was asked for**, whatever the
strategy. -/
theorem scheduleOne_requirement (req : ContainerRequirements) :
    (scheduleOne P s snapshots hosts req).1.requirement = req := by
  simp only [scheduleOne, floorScore_requirement, strategyDecision]
  split
  · rw [scheduleRoundRobin]
    split <;> rfl
  · rw [scheduleAffinity]
    split <;> rfl
  · rw [scheduleSpread]
    split <;> rfl
  · rw [scheduleBinPack]
    split <;> rfl
  · rfl
  · simp only [scheduleResourceAware]
    split
    · rfl
    · split <;> rfl

/-! ### The operations -/

/-- **`Schedule`**: place a single container. -/
def schedule (s : DefaultScheduler) (snapshots : Snapshots) (hosts : List RemoteHost)
    (req : ContainerRequirements) : PlacementDecision × DefaultScheduler :=
  let d := scheduleOne P s snapshots hosts req
  (d.1, d.2.place d.1.hostName)

/-- What a batch carries from one container to the next. -/
structure BatchState where
  sched : DefaultScheduler
  working : Snapshots
  decisions : List PlacementDecision

/-- One turn of `ScheduleBatch`'s loop: place, count the placement, deduct it from
the working snapshots. -/
def batchStep (hosts : List RemoteHost) (b : BatchState) (req : ContainerRequirements) :
    BatchState :=
  let d := schedule P b.sched b.working hosts req
  { sched := d.2
    working := if d.1.hostName ≠ "" then deductAt P b.working d.1.hostName req else b.working
    decisions := b.decisions ++ [d.1] }

/-- **`ScheduleBatch`**: place several containers, each against the capacity the
earlier ones left. -/
def scheduleBatch (s : DefaultScheduler) (snapshots : Snapshots) (hosts : List RemoteHost)
    (reqs : List ContainerRequirements) : PlacementPlan × DefaultScheduler :=
  if reqs = [] then ({}, s)
  else
    let b := reqs.foldl (batchStep P hosts) ⟨s, snapshots, []⟩
    ({ decisions := b.decisions, hostSnapshots := snapshots }, b.sched)

@[simp] theorem schedule_opts (req : ContainerRequirements) :
    (schedule P s snapshots hosts req).2.opts = s.opts := by
  simp [schedule]

theorem schedule_placements (req : ContainerRequirements) (x : String) :
    (schedule P s snapshots hosts req).2.placements x =
      if (schedule P s snapshots hosts req).1.PlacedOn x then wrapInt64 (s.placements x + 1)
      else s.placements x := by
  simp only [schedule, DefaultScheduler.place_placements, scheduleOne_placements,
    PlacementDecision.PlacedOn, eq_comm]

@[simp] theorem batchStep_opts (hosts : List RemoteHost) (b : BatchState)
    (req : ContainerRequirements) : (batchStep P hosts b req).sched.opts = b.sched.opts := by
  simp [batchStep]

theorem scheduleBatch_decisions (reqs : List ContainerRequirements) :
    (scheduleBatch P s snapshots hosts reqs).1.decisions =
      (reqs.foldl (batchStep P hosts) ⟨s, snapshots, []⟩).decisions := by
  rw [scheduleBatch]
  split
  · next h => rw [h]; rfl
  · rfl

theorem scheduleBatch_sched (reqs : List ContainerRequirements) :
    (scheduleBatch P s snapshots hosts reqs).2 =
      (reqs.foldl (batchStep P hosts) ⟨s, snapshots, []⟩).sched := by
  rw [scheduleBatch]
  split
  · next h => rw [h]; rfl
  · rfl

/-- **The batch rule**: what holds before the first container and is kept by the
placement of each holds of the whole batch. The scheduler's options are those the
batch started with throughout. -/
theorem batch_induction {motive : BatchState → Prop} {s : DefaultScheduler} {snapshots : Snapshots}
    {hosts : List RemoteHost} {reqs : List ContainerRequirements}
    (hinit : motive ⟨s, snapshots, []⟩)
    (hstep : ∀ b, b.sched.opts = s.opts → motive b → ∀ req ∈ reqs,
      motive (batchStep P hosts b req)) :
    motive (reqs.foldl (batchStep P hosts) ⟨s, snapshots, []⟩) := by
  have hboth : ∀ b : BatchState, b.sched.opts = s.opts → motive b →
      motive (reqs.foldl (batchStep P hosts) b) := by
    induction reqs with
    | nil => exact fun b _ h => h
    | cons req reqs ih =>
      intro b hopts h
      refine ih (fun b' ho h' r hr => hstep b' ho h' r (mem_cons_of_mem _ hr)) _ ?_ ?_
      · rw [batchStep_opts, hopts]
      · exact hstep b hopts h req mem_cons_self
  exact hboth _ rfl hinit

/-- **A batch counts a placement for every decision that names the host**, and nothing
else. -/
theorem scheduleBatch_placements {x : String} {n : ℤ} (hn : s.placements x = wrapInt64 n)
    (reqs : List ContainerRequirements) :
    (scheduleBatch P s snapshots hosts reqs).2.placements x = wrapInt64 (n +
      (scheduleBatch P s snapshots hosts reqs).1.decisions.countP (·.PlacedOn x)) := by
  rw [scheduleBatch_decisions, scheduleBatch_sched]
  refine batch_induction P (motive := fun b =>
    b.sched.placements x = wrapInt64 (n + b.decisions.countP (·.PlacedOn x))) ?_ ?_
  · simpa using hn
  intro b _ hb req _
  simp only [batchStep, schedule_placements, hb, countP_append, countP_singleton,
    decide_eq_true_eq]
  split_ifs
  · rw [wrapInt64_add_one, Nat.cast_add, Nat.cast_one, add_assoc]
  · rfl

/-- **A batch decides each of its requirements once, in order.** -/
theorem scheduleBatch_requirements (reqs : List ContainerRequirements) :
    (scheduleBatch P s snapshots hosts reqs).1.decisions.map (·.requirement) = reqs := by
  rw [scheduleBatch_decisions]
  have h : ∀ b : BatchState, (reqs.foldl (batchStep P hosts) b).decisions.map (·.requirement) =
      b.decisions.map (·.requirement) ++ reqs := by
    induction reqs with
    | nil => simp
    | cons req reqs ih =>
      intro b
      rw [foldl_cons, ih]
      simp [batchStep, schedule, scheduleOne_requirement]
  simpa using h ⟨s, snapshots, []⟩

end Scheduling

/-- `Rebalance`: the scheduler looks at the hosts and suggests no move. -/
def rebalance (snapshots : Snapshots) : Except String PlacementPlan :=
  if snapshots.entries.length = 0 then .error "no host snapshots available"
  else .ok { hostSnapshots := snapshots }

end Containers.Scheduler
