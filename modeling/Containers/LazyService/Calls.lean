import Containers.LazyService.Orchestrator
import Containers.Lib.Sections

/-!
# Lazy services, section by section

`RegisterService`, `StartService` and `StopService` of `pkg/lazyservice/orchestrator.go` in any
interleaving. What holds the mutex, or waits for the once of a booter, is a section; so is each call
to compose and to the health checker, during which nothing is held.

A start goes down into dependencies and alternatives and comes back. What it is in the middle of is
kept as its levels, the innermost one first, each with the service and the booter that it has read
when it was entered (`Level`); they are also the path in which it looks for cycles. The context of a
caller that is handed to the boot only matters for what the boot comes to, and is left out.
-/

namespace Containers.LazyService

open Go Compose

/-- What a level waits for. -/
inductive Todo where
  /-- Its own boot. -/
  | boot
  /-- This dependency, and then the others. -/
  | dependency (depName : String) (deps : List String)
  /-- An alternative, and then the others; when none is left, this is the error. -/
  | alternative (alts : List String) (err : String)
  deriving DecidableEq, Repr

/-- A call of `startServiceWithPath` that has found its service. -/
structure Level where
  name : String
  svc : ServiceDefinition
  booter : ℕ
  todo : Todo
  deriving DecidableEq, Repr

/-- Where a boot is. -/
inductive BootPoint where
  /-- Before `EnsureStarted`. -/
  | ensure
  -- `startServiceInternal`
  | up
  | health
  | down (err : String)
  | mark
  /-- The once is about to be done. -/
  | settle (r : Option String)
  deriving DecidableEq, Repr

/-- Where a start goes on. -/
inductive Focus where
  /-- A call of `startServiceWithPath` begins. -/
  | enter (name : String)
  /-- The innermost level boots. -/
  | boot (p : BootPoint)
  /-- A call of `startServiceWithPath` returns, with the word whether this is of its own booter. -/
  | result (name : String) (r : Option String) (direct : Bool)
  deriving DecidableEq, Repr

/-- Where a stop is. -/
inductive StopPoint where
  | read
  | down (svc : ServiceDefinition)
  | reset (svc : ServiceDefinition)
  deriving DecidableEq, Repr

/-- What is in flight. -/
inductive Frame where
  | start (levels : List Level) (focus : Focus)
  | stop (name : String) (p : StopPoint)
  | register (svc : ServiceDefinition)
  deriving DecidableEq, Repr

/-- What is called. -/
inductive Call where
  | startService (name : String)
  | stopService (name : String)
  | registerService (svc : ServiceDefinition)
  deriving DecidableEq, Repr

variable (m : Memory) (o : Outcome)

/-- The innermost level goes on with these dependencies, or with its boot. -/
def goOn (lv : Level) (levels : List Level) : List String → Frame
  | [] => .start ({ lv with todo := .boot } :: levels) (.boot .ensure)
  | depName :: deps =>
      .start ({ lv with todo := .dependency depName deps } :: levels) (.enter depName)

/-- The innermost level goes on with these alternatives, or fails. -/
def goOnWith (lv : Level) (levels : List Level) (err : String) : List String → Frame
  | [] => .start levels (.result lv.name (some err) false)
  | altName :: alts => .start ({ lv with todo := .alternative alts err } :: levels) (.enter altName)

def booted (lv : Level) (levels : List Level) : Option String → Frame
  | none => .start levels (.result lv.name none true)
  | some err => goOnWith lv levels (startErr lv.name err) lv.svc.alternativeServices

/-- The begin of a call of `startServiceWithPath`. -/
def enterStep (levels : List Level) (name : String) : Frame :=
  match m.services.lookup name, m.booters.lookup name with
  | none, _ => .start levels (.result name (some (notFoundErr name)) false)
  | some _, none => .start levels (.result name (some (noBooterErr name)) false)
  | some svc, some b =>
    match o.ctx with
    | some err => .start levels (.result name (some (abortedErr name err)) false)
    | none =>
      if name ∈ levels.map Level.name then .start levels (.result name (some (cycleErr name)) false)
      else goOn ⟨name, svc, b, .boot⟩ levels svc.dependencies

/-- What the innermost level makes of the result of a start that it waits for. -/
def resultStep (lv : Level) (levels : List Level) (r : Option String) : Frame :=
  match lv.todo, r with
  | .boot, r => .start levels (.result lv.name r false)
  | .dependency _ deps, none => goOn lv levels deps
  | .dependency depName _, some err =>
    .start levels (.result lv.name (some (dependencyErr depName err)) false)
  | .alternative _ _, none => .start levels (.result lv.name none false)
  | .alternative alts err, some _ => goOnWith lv levels err alts

/-- The sections of the boot of the innermost level. The booter has its own service. -/
def bootStep (lv : Level) (levels : List Level) : BootPoint → Option (Memory × Frame)
  | .ensure =>
    match (m.booter lv.booter).once with
    | .done r => some (m, booted lv levels r)
    | .running => none
    | .fresh => some (m.setOnce lv.booter .running, .start (lv :: levels) (.boot .up))
  | .up =>
    match o.up with
    | some err => some (m.attempt (m.booter lv.booter).svc.name,
        .start (lv :: levels) (.boot (.settle (some (upErr err)))))
    | none =>
      some ((m.attempt (m.booter lv.booter).svc.name).up (m.booter lv.booter).svc.name
          (m.booter lv.booter).svc.project,
        .start (lv :: levels)
        (.boot (if (m.booter lv.booter).svc.healthCheck then .health else .mark)))
  | .health => some (m, .start (lv :: levels) (.boot (o.health.elim .mark .down)))
  | .down err =>
    some (if o.down = none then m.down (m.booter lv.booter).svc.project else m,
      .start (lv :: levels) (.boot (.settle (some (healthErr err o.down)))))
  | .mark => some (m.setStarted (m.booter lv.booter).svc.name true,
      .start (lv :: levels) (.boot (.settle none)))
  | .settle r => some (m.setOnce lv.booter (.done r), booted lv levels r)

def startStep : List Level → Focus → Option (Memory × List Frame)
  | levels, .enter name => some (m, [enterStep m o levels name])
  | [], .boot _ => none
  | lv :: levels, .boot p => (bootStep m o lv levels p).map fun x => (x.1, [x.2])
  | [], .result _ _ _ => some (m, [])
  | lv :: levels, .result _ r _ => some (m, [resultStep lv levels r])

def stopStep (name : String) : StopPoint → Memory × List Frame
  | .read =>
    match m.services.lookup name with
    | none => (m, [])
    | some svc => (m, if m.isStarted name then [.stop name (.down svc)] else [])
  | .down svc =>
    match o.down with
    | some _ => (m, [])
    | none => (m.down svc.project, [.stop name (.reset svc)])
  | .reset svc => ((m.setStarted name false).newBooter name svc, [])

def step : Frame → Option (Memory × List Frame)
  | .start levels focus => startStep m o levels focus
  | .stop name p => some (stopStep m o name p)
  | .register svc => some ((registerService m svc).1, [])

def Call.frame : Call → Frame
  | .startService name => .start [] (.enter name)
  | .stopService name => .stop name .read
  | .registerService svc => .register svc

/-- **The orchestrator, section by section.** -/
def lazyOrchestrator : Sections Memory Frame Outcome Call where
  call _ c := c.frame
  step := step

end Containers.LazyService
