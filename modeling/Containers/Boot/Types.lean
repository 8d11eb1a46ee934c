import Containers.Go.Values
import Containers.Lib.Seam

/-!
# Endpoints, boot results and the seams of the boot manager

The data model of `pkg/boot`, with the fields of an endpoint (`pkg/endpoint`) that a boot reads, and
its interface to the discoverer, the compose orchestrator, the distributor, the health checker and
the context. `SeamCall` is one constructor per call it makes to one of them. Errors are their texts,
`none` being the nil error.

A boot walks its maps again and again, and Go leaves the order of every walk open. So the order is
one more thing that the surroundings decide: the call `range` answers with the keys of the map in
some order. The context is asked three times whether it was cancelled, once after each phase named.

Two contracts are built into the outcomes. The discoverer reports its find or an error, and the
health checker returns one result per target, in the order of the targets.

Left out are durations, log lines, events and metrics, and of the collaborators everything but
whether they are configured.
-/

namespace Containers.Boot

open Go

/-- `endpoint.ServiceEndpoint`, as far as a boot reads it. -/
structure ServiceEndpoint where
  host : String := ""
  port : String := ""
  url : String := ""
  enabled : Bool := false
  required : Bool := false
  remote : Bool := false
  healthPath : String := ""
  healthType : String := ""
  timeout : ℤ := 0
  composeFile : String := ""
  profile : String := ""
  discoveryEnabled : Bool := false
  discoveryMethod : String := ""
  discoveryTimeout : ℤ := 0
  deriving DecidableEq, Repr

/-! ### Results -/

/-- The status of a boot result. -/
inductive Status where
  | started
  | remote
  | distributed
  | discovered
  | failed
  | skipped
  deriving DecidableEq, Repr

def Status.text : Status → String
  | .started => "started"
  | .remote => "remote"
  | .distributed => "distributed"
  | .discovered => "discovered"
  | .failed => "failed"
  | .skipped => "skipped"

/-- `BootResult`, under the name of its endpoint. -/
structure BootResult where
  status : Status
  error : Option String := none
  deriving DecidableEq, Repr

/-- `BootSummary`. -/
structure BootSummary where
  results : GoMap String BootResult := ∅
  started : ℤ := 0
  remote : ℤ := 0
  discovered : ℤ := 0
  failed : ℤ := 0
  skipped : ℤ := 0

/-- `HasFailures`. -/
def BootSummary.hasFailures (s : BootSummary) : Bool := s.failed > 0

/-! ### Seams -/

/-- `compose.ComposeProject`. -/
structure ComposeProject where
  file : String
  profile : String
  deriving DecidableEq, Repr

/-- `discovery.DiscoveryTarget`. -/
structure DiscoveryTarget where
  name : String
  host : String
  port : String
  method : String
  timeout : ℤ
  deriving DecidableEq, Repr

/-- `health.HealthTarget`. -/
structure HealthTarget where
  name : String
  host : String
  port : String
  url : String
  type : String
  path : String
  timeout : ℤ
  required : Bool
  deriving DecidableEq, Repr

/-- `health.HealthResult`, as far as it is read. -/
structure HealthResult where
  healthy : Bool
  error : String := ""
  deriving DecidableEq, Repr

/-- The phases after which the context is looked at. -/
inductive Phase where
  | discovery
  | compose
  | distribution
  deriving DecidableEq, Repr

/-- **The calls of a boot manager to its collaborators.** -/
inductive SeamCall where
  | range (keys : List String)
  | ctxErr (after : Phase)
  | discover (target : DiscoveryTarget)
  | up (project : ComposeProject)
  | down (project : ComposeProject)
  | distribute (names : List String)
  | undistribute
  | checkAll (targets : List HealthTarget)
  deriving DecidableEq

abbrev Outcome : SeamCall → Type
  | .range keys => { order : List String // order.Perm keys }
  | .ctxErr _ | .up _ | .down _ | .undistribute => Option String
  | .discover _ => Except String Bool
  | .distribute _ => ℤ × Option String
  | .checkAll targets => { results : List HealthResult // results.length = targets.length }

abbrev Act := Prog Outcome

abbrev History := Trace Outcome

/-- What the collaborators answer, knowing all that came before. -/
abbrev Surroundings := History → (c : SeamCall) → Outcome c

def seam (c : SeamCall) : Act (Outcome c) := Prog.perform c

theorem wp_seam {c : SeamCall} {α : Type} {S : History → Event Outcome → Prop}
    {Q : α → History → Prop} {t : History} {k : Outcome c → Act α}
    (h : ∀ r, (k r).wp S Q (⟨c, r⟩ :: t)) : (seam c >>= k).wp S Q t := fun r _ => h r

end Containers.Boot
