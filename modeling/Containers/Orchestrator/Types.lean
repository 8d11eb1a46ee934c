import Containers.Go.Paths
import Containers.Lib.Seam
import Containers.Remote.Types

/-!
# Services, start records and the seams of the orchestrator

The data model of `pkg/orchestrator`, the remote commands it renders, and its interface to the rest
of the system: the local compose orchestrator, the remote executor, the host registry and the health
checker. `SeamCall` is one constructor per call it makes to one of them. Errors are their texts,
`none` being the nil error.

The services of one level are started by goroutines of their own, which share nothing and hand their
outcomes over one by one. The order in which they do is one more thing that the surroundings decide:
the call `completed` answers with the order in which the launched services hand over, and each of
them runs in its place of it.

`Site` is where a stack of containers runs – the compose file on this machine, or its copy in a
directory of a host. A start record carries the site that its compose up was sent to, which the
source does not keep: no modelled function reads it, and the statements about teardown compare it
with what the source does keep.

Descriptions and log lines are left out, and of the collaborators only matters whether they are
configured.
-/

namespace Containers.Orchestrator

open Go Remote

/-! ### Services -/

/-- `Service`. Several services may have the same name. -/
structure Service where
  name : String
  composeFile : String := ""
  profile : String := ""
  required : Bool := false
  healthPort : ℤ := 0
  healthPath : String := ""
  dependencies : List String := []
  deriving DecidableEq, Repr

/-! ### Remote places and commands -/

/-- `remoteStartInfo`: the host and the directory of a remote start. -/
structure RemoteStartInfo where
  host : RemoteHost
  dest : String
  deriving DecidableEq

/-- `remoteHomeDir`. -/
def remoteHomeDir (host : RemoteHost) : String := "/home/" ++ host.user ++ "/helixagent"

/-- `remoteServiceDest`: the directory on the host that the directory of a compose file is
copied to. -/
def remoteServiceDest (host : RemoteHost) (composePath : String) : String :=
  remoteHomeDir host ++ "/" ++ Filepath.base (Filepath.dir composePath)

/-- `shellQuote`: single quotes around, with every embedded one closed, escaped and
reopened. -/
def shellQuote (s : String) : String :=
  "'" ++ String.ofList (s.toList.flatMap fun c => if c.toNat = 39 then "'\\''".toList else [c]) ++
    "'"

/-- The two actions of a remote compose command. -/
inductive ComposeAction where
  | up
  | down
  deriving DecidableEq, Repr

def ComposeAction.text : ComposeAction → String
  | .up => "up -d"
  | .down => "down"

/-- `buildRemoteComposeCommand`. -/
def buildRemoteComposeCommand (remoteDest composeFileBase profile : String)
    (action : ComposeAction) : String :=
  "cd " ++ shellQuote remoteDest ++ " && docker compose -f " ++ shellQuote composeFileBase ++
    (if profile ≠ "" then " --profile " ++ shellQuote profile else "") ++ " " ++ action.text

/-- The commands that are sent to a remote host. -/
inductive RemoteCommand where
  | mkdir (dir : String)
  | compose (dest file profile : String) (action : ComposeAction)
  deriving DecidableEq, Repr

def RemoteCommand.text : RemoteCommand → String
  | .mkdir dir => "mkdir -p " ++ shellQuote dir
  | .compose dest file profile action => buildRemoteComposeCommand dest file profile action

/-- What a remote command came back with. -/
structure CommandResult where
  exitCode : ℤ := 0
  stderr : String := ""
  deriving DecidableEq, Repr

/-! ### Start records -/

/-- **Where a stack of containers runs**: the compose file on this machine, or the file of
this name in a directory of a host. -/
inductive Site where
  | onLocal (file : String)
  | onHost (host : RemoteHost) (dest file : String)
  deriving DecidableEq

def Site.isLocal : Site → Bool
  | .onLocal _ => true
  | .onHost .. => false

/-- The site of a compose file that was started on this machine or, with the host and the
directory, remotely. -/
def siteOf (composeAbs : String) : Option RemoteStartInfo → Site
  | none => .onLocal composeAbs
  | some info => .onHost info.host info.dest (Filepath.base composeAbs)

/-- `startedService`: a service that was started, and how. `remote` holds the host and the
directory of a remote start; `upAt` is where its compose up was sent. -/
structure StartedService where
  svc : Service
  composeAbs : String
  remote : Option RemoteStartInfo
  upAt : Site
  deriving DecidableEq

def StartedService.site (s : StartedService) : Site := siteOf s.composeAbs s.remote

/-! ### Seams -/

/-- The type of a health check. -/
inductive HealthType where
  | tcp
  | http
  deriving DecidableEq, Repr

/-- `health.HealthTarget`. -/
structure HealthTarget where
  name : String
  host : String
  port : String
  path : String
  type : HealthType
  required : Bool
  deriving DecidableEq, Repr

/-- `health.HealthResult`, as far as it is read. -/
structure HealthResult where
  healthy : Bool
  error : String := ""
  deriving DecidableEq, Repr

/-- **The calls of an orchestrator to its collaborators.** -/
inductive SeamCall where
  | listHosts
  | execute (host : RemoteHost) (cmd : RemoteCommand)
  | copyDir (host : RemoteHost) (src dst : String)
  | localUp (file profile : String)
  | localDown (file profile : String)
  | check (target : HealthTarget)
  | completed (launched : List (Service × String))

/-- What each call may answer. The health checker may return a nil result. -/
abbrev Outcome : SeamCall → Type
  | .listHosts => List RemoteHost
  | .execute _ _ => Except String CommandResult
  | .copyDir _ _ _ | .localUp _ _ | .localDown _ _ => Option String
  | .check _ => Option HealthResult
  | .completed launched => { order : List (Service × String) // order.Perm launched }

abbrev Act := Prog Outcome

abbrev History := Trace Outcome

/-- What the collaborators answer, knowing all that came before. -/
abbrev Surroundings := History → (c : SeamCall) → Outcome c

def seam (c : SeamCall) : Act (Outcome c) := Prog.perform c

theorem wp_seam {α : Type} {S : History → Event Outcome → Prop} {c : SeamCall}
    {Q : α → History → Prop} {t : History} {k : Outcome c → Act α}
    (h : ∀ r, S t ⟨c, r⟩ → (k r).wp S Q (⟨c, r⟩ :: t)) : (seam c >>= k).wp S Q t := h

end Containers.Orchestrator
