import Containers.Compose.Wait

/-!
# Lazy services

`LazyOrchestrator` of `pkg/lazyservice/orchestrator.go` with the one-shot booters of
`pkg/lifecycle/lazy.go`: services are registered with the services that they depend on and with
alternatives, and are started when somebody asks for them.

A booter is a pointer, here a number: `RegisterService` and `StopService` put a new one under the
name, and a start that has taken hold of the old one goes on with that. What the calls to compose,
to the health checker and to the context come to is given from outside. An `Up` that succeeds leaves
a stack, and a `Down` that succeeds takes it away; when they fail they change nothing.

This file has the calls one at a time, with what is to come from outside as a sequence that they use
up (`World`). The recursion of `startServiceWithPath` is given a depth, and `startService` gives one
more than the number of registered services, which always is enough.

The time limits, which only say when an outcome is an error, and what is merely reported or logged
are left out.
-/

namespace Containers.LazyService

open Go Compose Function

/-- `ServiceDefinition`, as far as starting and stopping read it. -/
structure ServiceDefinition where
  name : String
  composeFile : String
  profile : String := ""
  dependencies : List String := []
  /-- Whether there is a health check. -/
  healthCheck : Bool := false
  alternativeServices : List String := []
  deriving DecidableEq, Repr

def ServiceDefinition.project (svc : ServiceDefinition) : ComposeProject :=
  { file := svc.composeFile, profile := svc.profile }

/-- How far a one-shot booter is. -/
inductive Once where
  | fresh
  | running
  | done (err : Option String)
  deriving DecidableEq, Repr

/-- `LazyBooter`: the service that its start function starts, and how far it is. -/
structure LazyBooter where
  svc : ServiceDefinition
  once : Once := .fresh
  deriving DecidableEq, Repr

/-- **What the calls share**: the maps of the orchestrator, the booters, and beside them the stacks
that are up, each with the service that it was brought up for, and the services whose boot was
attempted, the last one first. -/
structure Memory where
  services : GoMap String ServiceDefinition := ∅
  booters : GoMap String ℕ := ∅
  started : GoMap String Bool := ∅
  booter : ℕ → LazyBooter := fun _ => ⟨⟨"", "", "", [], false, []⟩, .fresh⟩
  made : ℕ := 0
  stackUp : List (String × ComposeProject) := []
  attempts : List String := []

namespace Memory

variable (m : Memory)

def isStarted (name : String) : Bool := m.started.index false name

def setStarted (name : String) (b : Bool) : Memory := { m with started := m.started.insert name b }

/-- `NewLazyBooter` under a name. -/
def newBooter (name : String) (svc : ServiceDefinition) : Memory :=
  { m with
    booters := m.booters.insert name m.made
    booter := Function.update m.booter m.made ⟨svc, .fresh⟩
    made := m.made + 1 }

def setOnce (b : ℕ) (once : Once) : Memory :=
  { m with booter := Function.update m.booter b { m.booter b with once := once } }

/-- An `Up` that succeeds, for a service. -/
def up (name : String) (project : ComposeProject) : Memory :=
  { m with
    stackUp := if (name, project) ∈ m.stackUp then m.stackUp else (name, project) :: m.stackUp }

/-- A `Down` that succeeds. -/
def down (project : ComposeProject) : Memory :=
  { m with stackUp := m.stackUp.filter (·.2 ≠ project) }

def attempt (name : String) : Memory := { m with attempts := name :: m.attempts }

end Memory

theorem isStarted_setStarted (m : Memory) (name x : String) (b : Bool) :
    (m.setStarted name b).isStarted x = if x = name then b else m.isStarted x := by
  rw [Memory.isStarted, Memory.setStarted, GoMap.index]
  split_ifs with hx
  · rw [hx, AList.lookup_insert]
    rfl
  · rw [AList.lookup_insert_ne hx]
    rfl

theorem lookup_newBooter {m : Memory} {name x : String} {svc : ServiceDefinition} {b : ℕ}
    (hbound : ∀ x b, m.booters.lookup x = some b → b < m.made)
    (h : (m.newBooter name svc).booters.lookup x = some b) :
    x = name ∧ b = m.made ∧ (m.newBooter name svc).booter b = ⟨svc, .fresh⟩ ∨
      x ≠ name ∧ m.booters.lookup x = some b ∧ (m.newBooter name svc).booter b = m.booter b := by
  rcases GoMap.lookup_insert_iff.mp h with ⟨rfl, rfl⟩ | ⟨hne, hb⟩
  · exact .inl ⟨rfl, rfl, update_self _ _ _⟩
  · exact .inr ⟨hne, hb, update_of_ne (hbound x b hb).ne _ _⟩

/-- What the calls from outside come to: an error, or none. -/
structure Outcome where
  /-- Whether the context of the caller is done. -/
  ctx : Option String := none
  up : Option String := none
  health : Option String := none
  down : Option String := none
  deriving DecidableEq, Repr

/-- `RegisterService`. -/
def registerService (m : Memory) (svc : ServiceDefinition) : Memory × Option String :=
  if svc.name = "" then (m, some "service name is required")
  else if svc.composeFile = "" then
    (m, some ("service " ++ svc.name ++ ": compose file is required"))
  else ({ m with services := m.services.insert svc.name svc }.newBooter svc.name svc, none)

/-! ### Errors -/

def upErr (err : String) : String := "compose up failed: " ++ err

/-- What is said of a health check that has failed, and of the `Down` after it. -/
def healthErr (err : String) : Option String → String
  | none => "health check failed: " ++ err
  | some downErr => "health check failed: " ++ err ++
      " (teardown of orphaned stack also failed: " ++ downErr ++ ")"

def notFoundErr (name : String) : String := "service not found: " ++ name

def noBooterErr (name : String) : String := "service " ++ name ++ " has no booter"

def abortedErr (name err : String) : String := "start service " ++ name ++ " aborted: " ++ err

def cycleErr (name : String) : String :=
  "dependency cycle detected involving service " ++ quoted name

def dependencyErr (name err : String) : String := "dependency " ++ name ++ " failed: " ++ err

def startErr (name err : String) : String := "start service " ++ name ++ ": " ++ err

def stopErr (name err : String) : String := "stop service " ++ name ++ ": " ++ err

/-! ### The calls one at a time -/

/-- The orchestrator, and what the calls from outside are going to come to. -/
structure World where
  memory : Memory
  coming : ℕ → Outcome

namespace World

def outcome (w : World) : Outcome := w.coming 0

/-- The next outcome is used up, and the memory is this one. -/
def pass (w : World) (m : Memory) : World := ⟨m, fun i => w.coming (i + 1)⟩

end World

/-- `startServiceInternal`. -/
def startServiceInternal (w : World) (svc : ServiceDefinition) : Option String × World :=
  let m := w.memory.attempt svc.name
  match w.outcome.up with
  | some err => (some (upErr err), w.pass m)
  | none =>
    match if svc.healthCheck then w.outcome.health else none with
    | none => (none, w.pass ((m.up svc.name svc.project).setStarted svc.name true))
    | some err =>
      (some (healthErr err w.outcome.down),
        w.pass (if w.outcome.down = none then (m.up svc.name svc.project).down svc.project
          else m.up svc.name svc.project))

/-- `EnsureStarted`. A call that is alone does not meet a booter that is running. -/
def ensureStarted (w : World) (b : ℕ) : Option (Option String × World) :=
  match (w.memory.booter b).once with
  | .done err => some (err, w)
  | .running => none
  | .fresh =>
    let r := startServiceInternal w (w.memory.booter b).svc
    some (r.1, { r.2 with memory := r.2.memory.setOnce b (.done r.1) })

def startDependencies (start : World → String → Option (Option String × World)) :
    World → List String → Option (Option String × World)
  | w, [] => some (none, w)
  | w, depName :: deps =>
    match start w depName with
    | none => none
    | some (some err, w) => some (some (dependencyErr depName err), w)
    | some (none, w) => startDependencies start w deps

/-- The alternatives, one after the other, after the boot has failed with this error. -/
def startAlternatives (start : World → String → Option (Option String × World)) (err : String) :
    World → List String → Option (Option String × World)
  | w, [] => some (some err, w)
  | w, altName :: alts =>
    match start w altName with
    | none => none
    | some (none, w) => some (none, w)
    | some (some _, w) => startAlternatives start err w alts

/-- The body of `startServiceWithPath`, given how it starts the dependencies and the
alternatives. -/
def startOne (start : World → String → Option (Option String × World)) (inProgress : List String)
    (w : World) (name : String) : Option (Option String × World) :=
  match w.memory.services.lookup name, w.memory.booters.lookup name with
  | none, _ => some (some (notFoundErr name), w)
  | some _, none => some (some (noBooterErr name), w)
  | some svc, some b =>
    match w.outcome.ctx with
    | some err => some (some (abortedErr name err), w.pass w.memory)
    | none =>
      if name ∈ inProgress then some (some (cycleErr name), w.pass w.memory)
      else
        match startDependencies start (w.pass w.memory) svc.dependencies with
        | none => none
        | some (some err, w) => some (some err, w)
        | some (none, w) =>
          match ensureStarted w b with
          | none => none
          | some (none, w) => some (none, w)
          | some (some err, w) =>
            startAlternatives start (startErr name err) w svc.alternativeServices

/-- `startServiceWithPath`, to this depth. -/
def startServiceWithPath : ℕ → List String → World → String → Option (Option String × World)
  | 0, _, _, _ => none
  | depth + 1, inProgress, w, name =>
    startOne (startServiceWithPath depth (name :: inProgress)) inProgress w name

/-- `StartService`. -/
def startService (w : World) (name : String) : Option (Option String × World) :=
  startServiceWithPath (w.memory.services.keys.length + 1) [] w name

/-- `StopService`. -/
def stopService (w : World) (name : String) : Option String × World :=
  match w.memory.services.lookup name with
  | none => (some (notFoundErr name), w)
  | some svc =>
    if w.memory.isStarted name then
      match w.outcome.down with
      | some err => (some (stopErr name err), w.pass w.memory)
      | none =>
        (none, w.pass (((w.memory.down svc.project).setStarted name false).newBooter name svc))
    else (none, w)

end Containers.LazyService
