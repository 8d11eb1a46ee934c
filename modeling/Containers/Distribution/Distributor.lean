import Containers.Distribution.Types

/-!
# The distributor

`pkg/distribution/distributor.go`: deploying a container (start or `rm` and `run`, then
tunnels, then volumes, undone in the reverse case), tearing one down, and the three
operations on the whole – `Distribute`, `Rebalance` and `Undistribute` – as programs over
the seams.

A function that fills in a tracked entry through a pointer returns the entry, also when it
fails: a failed wiring leaves in it what was wired before.
-/

namespace Containers.Distribution

open Go Remote Scheduler Network Volume

/-- A distributor: its configuration, and the containers it tracks. -/
structure DefaultDistributor where
  opts : Options
  containers : List DistributedContainer := []

section Containers

variable (opts : Options)

def remoteRuntime (host : RemoteHost) : String :=
  if host.runtime = "" then "docker" else host.runtime

/-! ### Starting a container -/

/-- `deployLocal`. -/
def deployLocal (dc : DistributedContainer) : Act (Option String) :=
  if !opts.localRuntime then pure (some "no local runtime configured")
  else seam (.localStart dc.requirement.name)

/-- **`deployRemote`**: remove what there may be under the name – whether that succeeds is
not looked at – and run the container. -/
def deployRemote (dc : DistributedContainer) : Act (Option String) :=
  if !opts.executor then pure (some "no remote executor configured")
  else if !opts.hostManager then pure (some "no host manager configured")
  else do
    match ← seam (.getHost dc.hostName) with
    | none => pure (some ("host " ++ dc.hostName ++ " not found"))
    | some host =>
      let rt := remoteRuntime host
      -- the error of the removal is dropped
      let _ ← seam (.execute host (.remove rt dc.requirement.name))
      match ← seam (.execute host
        (.run rt dc.requirement.name dc.requirement.image dc.requirement.ports)) with
      | .error err => pure (some ("deploy on " ++ dc.hostName ++ ": " ++ err))
      | .ok result =>
        if result.exitCode ≠ 0 then
          pure (some ("deploy on " ++ dc.hostName ++ ": exit " ++
            toString result.exitCode ++ ": " ++ result.stderr))
        else pure none

/-! ### Tearing a container down -/

def joinErrors (errs : List (Option String)) : Option String :=
  match errs.filterMap id with
  | [] => none
  | errs => some ("\n".intercalate errs)

/-- **`teardownContainer`**: stop and remove a container where it was placed. -/
def teardownContainer (dc : DistributedContainer) : Act (Option String) :=
  let name := dc.requirement.name
  if normHost dc.hostName = "local" then
    if !opts.localRuntime then pure none
    else do
      let stopErr ← seam (.localStop name)
      let removeErr ← seam (.localRemove name)
      pure (joinErrors [stopErr.map ("stop " ++ name ++ ": " ++ ·),
        removeErr.map ("remove " ++ name ++ ": " ++ ·)])
  else if !opts.executor then
    pure (some ("teardown " ++ name ++ " on " ++ dc.hostName ++ ": no remote executor configured"))
  else if !opts.hostManager then
    pure (some ("teardown " ++ name ++ " on " ++ dc.hostName ++ ": no host manager configured"))
  else do
    match ← seam (.getHost dc.hostName) with
    | none => pure (some ("teardown " ++ name ++ ": host " ++ dc.hostName ++ " not found"))
    | some host =>
      match ← seam (.execute host (.remove (remoteRuntime host) name)) with
      | .error err => pure (some ("teardown " ++ name ++ " on " ++ dc.hostName ++ ": " ++ err))
      | .ok _ => pure none

/-! ### Tunnels and volumes -/

def tunnelPort (p : PortMapping) : String :=
  if p.hostPort > 0 then toString p.hostPort else toString p.containerPort

def tunnelSpec (dc : DistributedContainer) (p : PortMapping) : TunnelSpec :=
  { direction := .localForward
    remotePort := tunnelPort p
    description := dc.requirement.name ++ "/" ++ tunnelPort p }

/-- The local end of a created tunnel: the remote port, unless the manager says
otherwise. -/
def localEnd (remotePort : String) (info : Option TunnelInfo) : String :=
  match info with
  | some i => if i.spec.localPort ≠ "" then i.spec.localPort else remotePort
  | none => remotePort

/-- `rollbackTunnels`. -/
def rollbackTunnels (localPorts : List String) : Act Unit :=
  localPorts.foldlM (fun _ p => do let _ ← seam (.closeTunnel p); pure ()) ()

/-- `rollbackVolumes`. -/
def rollbackVolumes (names : List String) : Act Unit :=
  names.foldlM (fun _ n => do let _ ← seam (.unmount n); pure ()) ()

/-- How far the wiring of a container has come: its entry, what this wiring created, and
the error that stopped it. -/
structure Wiring where
  dc : DistributedContainer
  createdLocalPorts : List String := []
  mountedNames : List String := []
  error : Option String := none

/-- One turn of the tunnel loop: nothing after an error, nothing for a mapping without a
container port. -/
def wireTunnel (w : Wiring) (p : PortMapping) : Act Wiring :=
  if w.error.isSome || p.containerPort ≤ 0 then pure w
  else do
    match ← seam (.createTunnel w.dc.hostName (tunnelSpec w.dc p)) with
    | .error err =>
      rollbackTunnels w.createdLocalPorts
      pure { w with error := some ("create tunnel for " ++ w.dc.requirement.name ++ " port " ++
        tunnelPort p ++ ": " ++ err) }
    | .ok info =>
      let localPort := localEnd (tunnelPort p) info
      pure { w with
        dc := { w.dc with tunnelPorts := w.dc.tunnelPorts.insert (tunnelPort p) localPort }
        createdLocalPorts := w.createdLocalPorts ++ [localPort] }

def wireVolume (w : Wiring) (m : VolumeMount) : Act Wiring :=
  if w.error.isSome then pure w
  else do
    let m := if m.hostName = "" then { m with hostName := w.dc.hostName } else m
    match ← seam (.mount m) with
    | some err =>
      rollbackVolumes w.mountedNames
      rollbackTunnels w.createdLocalPorts
      pure { w with error := some ("mount volume " ++ m.name ++ " for " ++
        w.dc.requirement.name ++ ": " ++ err) }
    | none =>
      pure { w with
        dc := { w.dc with volumeMounts := w.dc.volumeMounts ++ [m.name] }
        mountedNames := w.mountedNames ++ [m.name] }

def wiredPorts (dc : DistributedContainer) : List PortMapping :=
  if opts.enableTunnels && opts.tunnelManager then dc.requirement.ports else []

def wiredVolumes (dc : DistributedContainer) : List VolumeMount :=
  if opts.enableVolumes && opts.volumeManager then
    match opts.volumeMountsFor with
    | some f => f dc.requirement dc.hostName
    | none => []
  else []

/-- **`wireTunnelsAndVolumes`**: the entry with what was wired, and the error that undid
it. Local containers are not wired. -/
def wireTunnelsAndVolumes (dc : DistributedContainer) :
    Act (DistributedContainer × Option String) :=
  if normHost dc.hostName = "local" then pure (dc, none)
  else do
    let w ← (wiredPorts opts dc).foldlM wireTunnel { dc := dc }
    let w ← (wiredVolumes opts w.dc).foldlM wireVolume w
    pure (w.dc, w.error)

/-! ### Deploying -/

def startContainer (dc : DistributedContainer) : Act (Option String) :=
  if dc.hostName = "" ∨ dc.hostName = "local" then deployLocal opts dc else deployRemote opts dc

/-- **`deployContainer`**: start, wire, and tear down again when the wiring fails. -/
def deployContainer (dc : DistributedContainer) : Act (DistributedContainer × Option String) := do
  match ← startContainer opts dc with
  | some err => pure (dc, some err)
  | none =>
    match ← wireTunnelsAndVolumes opts dc with
    | (dc, none) => pure (dc, none)
    | (dc, some err) =>
      match ← teardownContainer opts dc with
      | some tdErr =>
        seam (.log (.wiringTeardownFailed dc.requirement.name tdErr))
        pure (dc, some err)
      | none => pure (dc, some err)

/-! ### Relocations -/

/-- The host each name is on now; of several entries of one name, the last counts. -/
def newHosts (current : List DistributedContainer) : GoMap String String :=
  current.foldl (fun m dc => m.insert dc.requirement.name (normHost dc.hostName)) ∅

/-- Whether a previous placement stays where it is: its name was deployed in this round, on
the same host. -/
def keptInPlace (current : List DistributedContainer) (deployedThisRound : List String)
    (old : DistributedContainer) : Bool :=
  old.requirement.name ∈ deployedThisRound &&
    (newHosts current).lookup old.requirement.name = some (normHost old.hostName)

/-- One turn of `reconcileRelocations`' loop. -/
def reconcileOne (current : List DistributedContainer) (deployedThisRound : List String)
    (old : DistributedContainer) : Act Unit :=
  if !stateNeedsTeardown old.state || keptInPlace current deployedThisRound old then pure ()
  else do
    match ← teardownContainer opts old with
    | some err =>
      seam (.log (.reconcileTeardownFailed old.requirement.name old.hostName err))
    | none => pure ()

/-- **`reconcileRelocations`**: tear down what moved away or was dropped, where it was. -/
def reconcileRelocations (prev current : List DistributedContainer)
    (deployedThisRound : List String) : Act Unit :=
  prev.foldlM (fun _ old => reconcileOne opts current deployedThisRound old) ()

/-! ### Distributing -/

/-- What the deploy loop carries from one decision to the next. -/
structure Round where
  containers : List DistributedContainer := []
  deployedThisRound : List String := []
  summary : DistributionSummary := {}
  ctxErr : Option String := none

def Round.fail (r : Round) (dc : DistributedContainer) (err : String) : Round :=
  { r with
    containers := r.containers ++ [{ dc with state := .failed, error := err }]
    summary := { r.summary with failedContainers := r.summary.failedContainers + 1 } }

def Round.succeed (r : Round) (dc : DistributedContainer) (isLocal : Bool) : Round :=
  { r with
    containers := r.containers ++ [{ dc with state := .running }]
    summary :=
      if isLocal then { r.summary with localContainers := r.summary.localContainers + 1 }
      else { r.summary with remoteContainers := r.summary.remoteContainers + 1 } }

def deployDecision (r : Round) (decision : PlacementDecision) : Act Round := do
  let dc : DistributedContainer :=
    { requirement := decision.requirement, hostName := decision.hostName }
  match ← seam .ctxErr with
  | some err => pure ({ r with ctxErr := some err }.fail dc err)
  | none =>
    -- the sentinel of the scheduler for a container it could not place
    if decision.score = 0 then pure (r.fail dc decision.reason)
    else do
      let r := { r with deployedThisRound := decision.requirement.name :: r.deployedThisRound }
      match ← deployContainer opts { dc with state := .deploying } with
      | (dc, some err) =>
        seam (.log (.deployFailed dc.requirement.name dc.hostName err))
        pure (r.fail dc err)
      | (dc, none) => pure (r.succeed dc decision.isLocal)

end Containers

namespace DefaultDistributor

/-- The summary and the error a caller of `Distribute` gets. -/
abbrev Report := Option DistributionSummary × Option String

/-- **`Distribute`**: place and deploy containers, publish the new placement, and tear down
what the previous one has left elsewhere. -/
def distribute (d : DefaultDistributor) (reqs : List ContainerRequirements) :
    Act (DefaultDistributor × Report) :=
  if !d.opts.scheduler then pure (d, none, some "scheduler not configured")
  else do
    match ← seam (.scheduleBatch reqs) with
    | .error err => pure (d, none, some ("schedule: " ++ err))
    | .ok plan =>
      let r ← plan.decisions.foldlM (deployDecision d.opts)
        { summary := { totalContainers := reqs.length, hostUtilization := plan.hostSnapshots } }
      reconcileRelocations d.opts d.containers r.containers r.deployedThisRound
      pure ({ d with containers := r.containers },
        some { r.summary with containers := r.containers }, r.ctxErr)

/-- **`Rebalance`**: distribute what is tracked once more. -/
def rebalance (d : DefaultDistributor) : Act (DefaultDistributor × Report) :=
  if !d.opts.scheduler then pure (d, none, some "scheduler not configured")
  else d.distribute (d.containers.map (·.requirement))

/-- One turn of `Undistribute`'s loop, with the errors so far. -/
def undistributeOne (opts : Options) (errs : List TeardownError) (dc : DistributedContainer) :
    Act (List TeardownError) :=
  if !stateNeedsTeardown dc.state then pure errs
  else do
    match ← teardownContainer opts dc with
    | some err =>
      seam (.log (.undistributeTeardownFailed dc.requirement.name dc.hostName err))
      pure (errs ++ [⟨dc.hostName, dc.requirement.name, err⟩])
    | none => pure errs

/-- Close all tunnels; what comes of it is not looked at. -/
def closeTunnels (opts : Options) : Act Unit :=
  if opts.tunnelManager then do
    let _ ← seam .closeAllTunnels
    pure ()
  else pure ()

/-- Unmount all volumes; what comes of it is not looked at. -/
def unmountVolumes (opts : Options) : Act Unit :=
  if opts.volumeManager then do
    let _ ← seam .unmountAll
    pure ()
  else pure ()

/-- **`Undistribute`**: forget every container, having torn it down, and close all tunnels
and volumes. What could not be torn down is returned. -/
def undistribute (d : DefaultDistributor) : Act DefaultDistributor := do
  let errs ← d.containers.foldlM (undistributeOne d.opts) []
  closeTunnels d.opts
  unmountVolumes d.opts
  seam (.undistributeReturns errs)
  pure { d with containers := [] }

end DefaultDistributor

end Containers.Distribution
