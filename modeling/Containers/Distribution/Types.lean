import Containers.Lib.Seam
import Containers.Network.Types
import Containers.Scheduler.Types
import Containers.Volume.Types

/-!
# What a distributor tracks, and the seams it acts through

The data model of `pkg/distribution`, the two remote commands a distributor renders, and its
interface to the rest of the system.

A distributor owns nothing but a list of tracked containers. All it does to the world it does
through the collaborators it was configured with – the scheduler, the host registry, the remote
executor, the local runtime, the tunnel and volume managers, the logger, the context – and
`SeamCall` is one constructor per call it ever makes to one of them, `Outcome` what each may answer.
Errors are their texts, `none` being the nil error.

Two contracts are built into the outcomes. A host found in the registry is found under its own name,
which is the invariant of the registry (`Remote.DefaultHostManager`). And a command is judged as the
source judges it: by the error the executor returns, and for a `run` by its exit code as well.

Left out are timestamps and durations, container identifiers, the plain log lines, and the
configuration of the collaborators, of which only matters here whether they are there.
-/

namespace Containers.Distribution

open Go Remote Scheduler Network Volume

/-! ### Tracked containers -/

/-- The phase of a distributed container. -/
inductive DistributionState where
  | scheduled
  | deploying
  | running
  | failed
  | migrating
  | stopped
  deriving DecidableEq, Repr

/-- The placement of a single container, as it is tracked. -/
structure DistributedContainer where
  requirement : ContainerRequirements
  hostName : String := ""
  state : DistributionState := .scheduled
  tunnelPorts : GoMap String String := ∅
  volumeMounts : List String := []
  error : String := ""

/-- The outcome of a distribution. -/
structure DistributionSummary where
  totalContainers : ℕ := 0
  localContainers : ℕ := 0
  remoteContainers : ℕ := 0
  failedContainers : ℕ := 0
  hostUtilization : Snapshots := ∅
  containers : List DistributedContainer := []

/-- The configuration of a distributor: which collaborators it has, what it wires after a
deployment, and the hook that derives the volumes of a container. -/
structure Options where
  localRuntime : Bool := false
  hostManager : Bool := false
  executor : Bool := false
  scheduler : Bool := false
  tunnelManager : Bool := false
  volumeManager : Bool := false
  enableTunnels : Bool := true
  enableVolumes : Bool := true
  volumeMountsFor : Option (ContainerRequirements → String → List VolumeMount) := none

/-- `normHost`: the empty name and `local` both denote the local host. -/
def normHost (h : String) : String := if h = "" then "local" else h

/-- `stateNeedsTeardown`: the container was deployed and may still be alive. -/
def stateNeedsTeardown (s : DistributionState) : Bool := s = .running || s = .migrating

/-- Where a container lives: the host, normalised, and the name it has there. -/
abbrev Place := String × String

def DistributedContainer.place (dc : DistributedContainer) : Place :=
  (normHost dc.hostName, dc.requirement.name)

/-! ### Remote commands -/

/-- The commands a distributor sends to a remote host. -/
inductive RemoteCommand where
  | remove (rt name : String)
  | run (rt name image : String) (ports : List PortMapping)

/-! ### Seams -/

/-- The result of a remote command. -/
structure CommandResult where
  exitCode : ℤ := 0
  stderr : String := ""
  deriving DecidableEq, Repr

/-- What could not be torn down, and why. -/
structure TeardownError where
  hostName : String
  name : String
  message : String
  deriving DecidableEq, Repr

/-- The error lines of the log. -/
inductive LogEntry where
  /-- `deploy %s to %s failed: %v`. -/
  | deployFailed (name hostName err : String)
  /-- `deploy %s: teardown after tunnel/volume failure also failed: %v`. -/
  | wiringTeardownFailed (name err : String)
  /-- `reconcile: teardown stale %s on %s failed: %v`. -/
  | reconcileTeardownFailed (name hostName err : String)
  /-- `undistribute: teardown %s on %s failed: %v`. -/
  | undistributeTeardownFailed (name hostName err : String)
  /-- `failover: host %s is offline`. -/
  | hostOffline (hostName : String)

/-- **The calls a distributor makes**, and what it lets its caller know. -/
inductive SeamCall where
  /-- `ctx.Err()`. -/
  | ctxErr
  /-- `Scheduler.ScheduleBatch`. -/
  | scheduleBatch (reqs : List ContainerRequirements)
  /-- `HostManager.GetHost`. -/
  | getHost (name : String)
  /-- `Executor.Execute`. -/
  | execute (host : RemoteHost) (command : RemoteCommand)
  /-- `Executor.IsReachable`. -/
  | isReachable (host : RemoteHost)
  /-- `LocalRuntime.Start`. -/
  | localStart (name : String)
  /-- `LocalRuntime.Stop`. -/
  | localStop (name : String)
  /-- `LocalRuntime.Remove`, forced. -/
  | localRemove (name : String)
  /-- `TunnelManager.CreateTunnel`. -/
  | createTunnel (hostName : String) (spec : TunnelSpec)
  /-- `TunnelManager.CloseTunnel`. -/
  | closeTunnel (localPort : String)
  /-- `TunnelManager.CloseAll`. -/
  | closeAllTunnels
  /-- `VolumeManager.Mount`. -/
  | mount (m : VolumeMount)
  /-- `VolumeManager.Unmount`. -/
  | unmount (name : String)
  /-- `VolumeManager.UnmountAll`. -/
  | unmountAll
  /-- `Logger.Error` and `Logger.Warn`. -/
  | log (entry : LogEntry)
  /-- `Undistribute` returns these errors, joined. -/
  | undistributeReturns (errs : List TeardownError)

/-- **What a call may answer.** -/
@[reducible]
def Outcome : SeamCall → Type
  | .ctxErr => Option String
  | .scheduleBatch _ => Except String PlacementPlan
  | .getHost name => Option { h : RemoteHost // h.name = name }
  | .execute _ _ => Except String CommandResult
  | .isReachable _ => Bool
  | .localStart _ | .localStop _ | .localRemove _ => Option String
  | .createTunnel _ _ => Except String (Option TunnelInfo)
  | .closeTunnel _ | .closeAllTunnels => Option String
  | .mount _ | .unmount _ | .unmountAll => Option String
  | .log _ | .undistributeReturns _ => Unit

/-- A program that acts through the seams of a distributor. -/
abbrev Act := Prog Outcome

def seam (c : SeamCall) : Act (Outcome c) := Prog.perform c

abbrev History := Trace Outcome

theorem wp_seam {α : Type} {S : History → Event Outcome → Prop} {c : SeamCall}
    {Q : α → History → Prop} {t : History} {k : Outcome c → Act α}
    (h : ∀ o, S t ⟨c, o⟩ → (k o).wp S Q (⟨c, o⟩ :: t)) : (seam c >>= k).wp S Q t := h

end Containers.Distribution
