import Containers.Remote.Types

/-!
# What the scheduler is asked, and what it answers

The data model of `pkg/scheduler`: a container's requirements, the placement decision for one
container and the plan for a batch, and the options a scheduler is configured with.
`defaultSchedulerOptions` are the options before any is overridden.
-/

namespace Containers.Scheduler

open Go Remote

/-- How containers are distributed across hosts. -/
inductive PlacementStrategy where
  /-- The host with the most available resources: `resource_aware`, and the
  default arm of the dispatch. -/
  | resourceAware
  /-- Hosts in rotation: `round_robin`. -/
  | roundRobin
  /-- Hosts matching the required labels: `affinity`. -/
  | affinity
  /-- The host with the fewest containers: `spread`. -/
  | spread
  /-- The fullest host that still fits: `bin_pack`. -/
  | binPack
  /-- A host with a matching GPU: `gpu_affinity`. -/
  | gpuAffinity
  deriving DecidableEq, Repr

/-- A container's GPU needs. -/
structure GPURequirement where
  count : ℤ := 0
  minVRAMMB : ℤ := 0
  vendor : String := ""
  minCompute : String := ""
  capabilities : List String := []
  deriving DecidableEq, Repr

/-- A container port published on the placement host. -/
structure PortMapping where
  hostPort : ℤ := 0
  containerPort : ℤ := 0
  protocol : String := ""
  deriving DecidableEq, Repr

/-- What a container needs from its host. -/
structure ContainerRequirements where
  name : String := ""
  image : String := ""
  cpuCores : ℚ := 0
  memoryMB : UInt64 := 0
  diskMB : UInt64 := 0
  labels : Labels := ∅
  preferLocal : Bool := false
  gpu : Option GPURequirement := none
  ports : List PortMapping := []
  deriving DecidableEq

/-- Where one container was placed. -/
structure PlacementDecision where
  requirement : ContainerRequirements
  hostName : String := ""
  score : ℚ := 0
  reason : String := ""
  deriving DecidableEq

namespace PlacementDecision

def isLocal (d : PlacementDecision) : Bool := d.hostName = "" || d.hostName = "local"

/-- **The decision places its container on `h`**: the scheduler's own test for a
placement is that the decision names a host. -/
def PlacedOn (d : PlacementDecision) (h : String) : Prop := d.hostName ≠ "" ∧ d.hostName = h

instance (d : PlacementDecision) (h : String) : Decidable (d.PlacedOn h) :=
  inferInstanceAs (Decidable (_ ∧ _))

end PlacementDecision

/-- The decisions for a batch of containers, with the snapshots they were taken
from. -/
structure PlacementPlan where
  decisions : List PlacementDecision := []
  hostSnapshots : Snapshots := ∅

/-- The configuration of a scheduler. -/
structure Options where
  strategy : PlacementStrategy := .resourceAware
  localHostName : String := "local"
  cpuWeight : ℚ := 0.40
  memoryWeight : ℚ := 0.40
  diskWeight : ℚ := 0.10
  networkWeight : ℚ := 0.10
  overcommitRatio : ℚ := 1
  reservePercent : ℚ := 10
  gpuWeight : ℚ := 0

def defaultSchedulerOptions : Options := {}

end Containers.Scheduler
