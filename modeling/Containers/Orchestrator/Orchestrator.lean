import Containers.Orchestrator.Levels

/-!
# The orchestrator

`pkg/orchestrator/orchestrator.go`: starting all services level by level, starting one, rolling back
a boot that failed, and stopping everything, as programs over the seams.

`StartAll` starts the services of a level concurrently, drains their outcomes, and only then goes on
to the next level; what one level leaves to the next are the accumulators of `Boot`. Next to those
of the source, a boot keeps a log of what became of each service (`fates`), which no modelled
function reads: a service that was skipped or whose file was missing is entered when the level loop
comes by it, one that was launched when its outcome is drained.

Whether a compose file exists is asked of the disk as it is during the call (`files`). The source
asks for `os.IsNotExist`, so a file that cannot be looked at counts as present.
-/

namespace Containers.Orchestrator

open Go Remote

/-- `DefaultOrchestrator`: the services, which collaborators are configured, and how each
name was last started. -/
structure DefaultOrchestrator where
  services : List Service := []
  localOrch : Bool := false
  remoteExec : Bool := false
  hostMgr : Bool := false
  healthChecker : Bool := false
  projectDir : String := ""
  startedByName : GoMap String StartedService := ∅

variable (o : DefaultOrchestrator)

namespace DefaultOrchestrator

/-- `remoteEnabled`, which `New` computes from the options and nothing changes. -/
def remoteEnabled : Bool := o.hostMgr && o.remoteExec

def composePath (svc : Service) : String :=
  if Filepath.isAbs svc.composeFile then svc.composeFile
  else Filepath.join o.projectDir svc.composeFile

/-! ### What is tracked -/

/-- `trackStarted`. -/
def trackStarted (s : StartedService) : DefaultOrchestrator :=
  { o with startedByName := o.startedByName.insert s.svc.name s }

/-- `forgetStarted`. -/
def forgetStarted (name : String) : DefaultOrchestrator :=
  { o with startedByName := o.startedByName.erase name }

/-! ### Starting one service -/

/-- `startLocal`. -/
def startLocal (svc : Service) (composePath : String) : Act (Option String) :=
  if !o.localOrch then pure (some "local orchestrator not configured")
  else seam (.localUp composePath svc.profile)

/-- **`startRemote`**: copy the directory of the compose file to the first host that is listed,
and run compose up there. The source returns the bare error; where the service was brought up
is added. -/
def startRemote (svc : Service) (composePath : String) : Act (Except String RemoteStartInfo) :=
  if !o.hostMgr || !o.remoteExec then pure (.error "remote execution not configured")
  else do
    match ← seam .listHosts with
    | [] => pure (.error "no remote hosts available")
    | host :: _ =>
      match ← seam (.execute host (.mkdir (remoteHomeDir host))) with
      | .error err => pure (.error ("create remote dir: " ++ err))
      | .ok result =>
        if result.exitCode ≠ 0 then
          pure (.error ("create remote dir failed: " ++ result.stderr))
        else
          let remoteDest := remoteServiceDest host composePath
          match ← seam (.copyDir host (Filepath.dir composePath) remoteDest) with
          | some err => pure (.error ("copy to remote: " ++ err))
          | none =>
            match ← seam (.execute host
              (.compose remoteDest (Filepath.base composePath) svc.profile .up)) with
            | .error err => pure (.error err)
            | .ok result =>
              if result.exitCode ≠ 0 then
                pure (.error ("compose up failed: " ++ result.stderr))
              else pure (.ok ⟨host, remoteDest⟩)

/-- **`resolveRemoteStartInfo`**: ask for the hosts once more, and take the first. -/
def resolveRemoteStartInfo (composeAbs : String) : Act (Option RemoteStartInfo) :=
  if !o.hostMgr then pure none
  else do
    match ← seam .listHosts with
    | [] => pure none
    | host :: _ => pure (some ⟨host, remoteServiceDest host composeAbs⟩)

def healthHost : Option RemoteStartInfo → String
  | some info => if info.host.address ≠ "" then info.host.address else "localhost"
  | none => "localhost"

def healthTarget (svc : Service) (remoteInfo : Option RemoteStartInfo) : HealthTarget where
  name := svc.name
  host := healthHost remoteInfo
  port := toString svc.healthPort
  path := svc.healthPath
  type := if svc.healthPath ≠ "" then .http else .tcp
  required := svc.required

/-- `checkServiceHealth`. -/
def checkServiceHealth (svc : Service) (remoteInfo : Option RemoteStartInfo) :
    Act (Option String) :=
  if !o.healthChecker || svc.healthPort ≤ 0 then pure none
  else do
    match ← seam (.check (healthTarget svc remoteInfo)) with
    | none => pure (some ("health check for " ++ svc.name ++ " returned no result"))
    | some result =>
      if !result.healthy then
        if result.error ≠ "" then pure (some ("health check failed: " ++ result.error))
        else pure (some "health check failed")
      else pure none

/-! ### A goroutine of `StartAll` -/

/-- A service that is up: what is kept of a remote start, and where its compose up was sent. -/
structure Launched where
  remoteInfo : Option RemoteStartInfo
  upAt : Site

def launchLocal (s : Service) (composeAbs : String) : Act (Except String Launched) := do
  match ← o.startLocal s composeAbs with
  | some err => pure (.error err)
  | none => pure (.ok ⟨none, .onLocal composeAbs⟩)

/-- Bring a service up: remotely if that is enabled, and locally if it is not or fails. -/
def launch (s : Service) (composeAbs : String) : Act (Except String Launched) :=
  if o.remoteEnabled then do
    match ← o.startRemote s composeAbs with
    | .error _ => o.launchLocal s composeAbs
    | .ok place => do
      let remoteInfo ← o.resolveRemoteStartInfo composeAbs
      pure (.ok ⟨remoteInfo, siteOf composeAbs (some place)⟩)
  else o.launchLocal s composeAbs

/-- `startOutcome`. The service is up if `started` has a value, also if its health check made
`err` an error. -/
structure StartOutcome where
  svc : Service
  err : Option String
  started : Option StartedService

/-- **The goroutine of a service.** -/
def start (s : Service) (composeAbs : String) : Act StartOutcome := do
  match ← o.launch s composeAbs with
  | .error err => pure ⟨s, some err, none⟩
  | .ok up =>
    let healthErr ← o.checkServiceHealth s up.remoteInfo
    pure ⟨s, if s.required then healthErr else none, some ⟨s, composeAbs, up.remoteInfo, up.upAt⟩⟩

end DefaultOrchestrator

/-! ### The accumulators of `StartAll` -/

/-- What became of a service in a boot: skipped for a failed dependency, not configured here,
failed to start or to become healthy, or up. -/
inductive Fate where
  | skipped
  | missing
  | failed
  | up
  deriving DecidableEq, Repr

/-- The state of a boot between two turns. -/
structure Boot where
  nameTotal : String → ℤ
  nameFailedCount : String → ℤ := fun _ => 0
  failedNames : String → Bool := fun _ => false
  failures : List String := []
  started : List StartedService := []
  fates : List (Service × Fate) := []

namespace Boot

def init (services : List Service) : Boot where
  nameTotal := fun name => services.countP (·.name = name)

/-- `recordNameFailure`: one more failed or skipped instance of the name. -/
def recordNameFailure (b : Boot) (name : String) : Boot :=
  { b with
    nameFailedCount := Function.update b.nameFailedCount name (b.nameFailedCount name + 1)
    failedNames :=
      if b.nameFailedCount name + 1 ≥ b.nameTotal name then
        Function.update b.failedNames name true
      else b.failedNames }

/-- `dependencyFailed`. -/
def dependencyFailed (b : Boot) (svc : Service) : Bool := svc.dependencies.any b.failedNames

def log (b : Boot) (svc : Service) (fate : Fate) : Boot :=
  { b with fates := b.fates ++ [(svc, fate)] }

def fail (b : Boot) (svc : Service) (text : String) : Boot :=
  if svc.required then { b with failures := b.failures ++ [text] } else b

def skip (b : Boot) (svc : Service) : Boot :=
  ((b.recordNameFailure svc.name).fail svc
    ("required service " ++ svc.name ++ " skipped: dependency failed")).log svc .skipped

/-- A service whose compose file is missing is taken out of the total. -/
def miss (b : Boot) (svc : Service) : Boot :=
  { b with
    nameTotal := Function.update b.nameTotal svc.name (b.nameTotal svc.name - 1) }.log svc .missing

def drain (b : Boot) (r : DefaultOrchestrator.StartOutcome) : Boot :=
  let b := match r.err with
    | some err => ((b.recordNameFailure r.svc.name).fail r.svc
        ("required service " ++ r.svc.name ++ " failed: " ++ err)).log r.svc .failed
    | none => b.log r.svc .up
  { b with started := b.started ++ r.started.toList }

end Boot

namespace DefaultOrchestrator

/-- One turn of the level loop: skip the service, pass over it, or launch it. -/
def visit (files : String → Bool) (x : Boot × List (Service × String)) (svc : Service) :
    Boot × List (Service × String) :=
  if x.1.dependencyFailed svc then (x.1.skip svc, x.2)
  else if !files (o.composePath svc) then (x.1.miss svc, x.2)
  else (x.1, x.2 ++ [(svc, o.composePath svc)])

/-- **One level**: the services that are launched run in the order in which they hand over
their outcomes. -/
def bootLevel (files : String → Bool) (b : Boot) (level : List Service) : Act Boot := do
  let x := level.foldl (o.visit files) (b, [])
  let order ← seam (.completed x.2)
  order.1.foldlM (fun b s => do let r ← o.start s.1 s.2; pure (b.drain r)) x.1

/-! ### Rolling back -/

/-- `remoteComposeDown`. -/
def remoteComposeDown (info : RemoteStartInfo) (composeAbs profile : String) :
    Act (Option String) := do
  match ← seam (.execute info.host
    (.compose info.dest (Filepath.base composeAbs) profile .down)) with
  | .error err => pure (some err)
  | .ok result =>
    if result.exitCode ≠ 0 then pure (some ("remote compose down failed: " ++ result.stderr))
    else pure none

/-- The teardown of one service in a rollback, with the error that is logged if it is left
running. -/
def rollbackDown (s : StartedService) : Act (Option String) :=
  match s.remote with
  | some info =>
    if !o.remoteExec then pure (some "no remote executor configured")
    else remoteComposeDown info s.composeAbs s.svc.profile
  | none =>
    if !o.localOrch then pure (some "no local orchestrator configured")
    else seam (.localDown s.composeAbs s.svc.profile)

/-- What a rollback has come to: the orchestrator, the services that were torn down, and those
that are left running. -/
structure RollingBack where
  orch : DefaultOrchestrator
  down : List StartedService := []
  left : List StartedService := []

/-- One turn of `rollback`: a teardown that fails is logged, and nothing else is made of it. -/
def rollbackOne (x : RollingBack) (s : StartedService) : Act RollingBack := do
  match ← o.rollbackDown s with
  | some _ => pure { x with left := x.left ++ [s] }
  | none => pure { x with orch := x.orch.forgetStarted s.svc.name, down := x.down ++ [s] }

/-- **`rollback`**: tear down what was started. -/
def rollback (started : List StartedService) : Act RollingBack :=
  started.foldlM o.rollbackOne { orch := o }

/-! ### The operations -/

/-- What a `StartAll` comes back with: the error it returns and the orchestrator after it; next
to them the boot, if there was one, and of the services that it started those that it tore down
again and those that it left running. -/
structure StartAllResult where
  err : Option String
  orch : DefaultOrchestrator
  boot : Option Boot := none
  down : List StartedService := []
  left : List StartedService := []

/-- What a `StartAll` started. -/
def StartAllResult.started (r : StartAllResult) : List StartedService :=
  (r.boot.map (·.started)).getD []

/-- **`StartAll`.** -/
def startAll (files : String → Bool) : Act StartAllResult :=
  match computeStartLevels o.services with
  | .error e => pure { err := some ("orchestrator: " ++ e), orch := o }
  | .ok levels => do
    let b ← levels.foldlM (o.bootLevel files) (Boot.init o.services)
    if 0 < b.failures.length then do
      let x ← o.rollback b.started
      pure { err := some ("orchestrator: " ++ toString b.failures.length ++ " service(s) failed")
             orch := x.orch, boot := some b, down := x.down, left := x.left }
    else
      pure { err := none, orch := b.started.foldl trackStarted o, boot := some b
             left := b.started }

def findService (name : String) : Option Service := o.services.find? (·.name = name)

/-- **`StartService`**: a remote start is tracked before its health is looked at, a local one
after. The record of what was brought up is returned next to the error, tracked or not. -/
def startService (name : String) :
    Act (Option String × DefaultOrchestrator × Option StartedService) :=
  match o.findService name with
  | none => pure (some ("service not found: " ++ name), o, none)
  | some target =>
    let composePath := o.composePath target
    if o.remoteEnabled then do
      match ← o.startRemote target composePath with
      | .error err => pure (some err, o, none)
      | .ok place =>
        let info ← o.resolveRemoteStartInfo composePath
        let s : StartedService := ⟨target, composePath, info, siteOf composePath (some place)⟩
        let err ← o.checkServiceHealth target info
        pure (err, o.trackStarted s, some s)
    else do
      match ← o.startLocal target composePath with
      | some err => pure (some err, o, none)
      | none =>
        let s : StartedService := ⟨target, composePath, none, .onLocal composePath⟩
        match ← o.checkServiceHealth target none with
        | some err => pure (some err, o, some s)
        | none => pure (none, o.trackStarted s, some s)

/-- What a `StopAll` has come to: the orchestrator, and the first error. -/
structure Stopping where
  orch : DefaultOrchestrator
  firstErr : Option String := none

def Stopping.error (x : Stopping) (err : String) : Stopping :=
  { x with firstErr := x.firstErr.or (some err) }

/-- The teardown of a service that no remote start is tracked for. -/
def stopLocal (x : Stopping) (svc : Service) (tracked : Bool) : Act Stopping :=
  if !o.localOrch then pure x
  else do
    match ← seam (.localDown (o.composePath svc) svc.profile) with
    | some err => pure (x.error err)
    | none => pure (if tracked then { x with orch := x.orch.forgetStarted svc.name } else x)

def stopRemote (x : Stopping) (svc : Service) (composeAbs : String) (info : RemoteStartInfo) :
    Act Stopping :=
  if !o.remoteExec then
    pure (x.error ("service " ++ svc.name ++
      " was started remotely but no remote executor is configured to stop it"))
  else do
    match ← remoteComposeDown info composeAbs svc.profile with
    | some err => pure (x.error err)
    | none => pure { x with orch := x.orch.forgetStarted svc.name }

/-- One turn of `StopAll`, on the records `started` that it set out with. -/
def stopOne (started : GoMap String StartedService) (x : Stopping) (svc : Service) :
    Act Stopping :=
  match started.lookup svc.name with
  | none => o.stopLocal x svc false
  | some s =>
    match s.remote with
    | none => o.stopLocal x svc true
    | some info => o.stopRemote x svc s.composeAbs info

/-- **`StopAll`.** -/
def stopAll : Act Stopping :=
  if !o.localOrch && !o.remoteExec then pure { orch := o }
  else o.services.foldlM (o.stopOne o.startedByName) { orch := o }

end DefaultOrchestrator

end Containers.Orchestrator
