import Containers.Go.Values

/-!
# The lifecycle manager: its data

`pkg/lifecycle/types.go` and the data of `manager.go`, `lazy.go`, `idle.go` and
`semaphore.go`: what is registered, what the manager keeps for a service, and the objects
its operations share through pointers – the handle of a boot that is under way, the
one-shot booter of a lazy service, the idle timer, and a lease.

* Pointers are numbers, given out one after the other, so two objects are the same object
  exactly when their numbers are equal.
* The semaphore is the number of its slots that are taken; the counter next to its channel
  is only read by `Status`, which is not modelled.
* Times are left out: a timer may fire at any moment after it was armed, and whether its
  timeout has really passed since the last touch is an outcome from outside.
* What compose and the health checker did is kept in a log, latest first. It is written
  for the statements and never read by an operation.
-/

namespace Containers.Lifecycle

open Go Function

/-! ### Services -/

/-- **A service**, as it is registered. The compose project and the health target are only
handed on, to calls that may come to anything. -/
structure ServiceSpec where
  name : String
  lazyBoot : Bool := false
  /-- In nanoseconds; positive when there is an idle timer. -/
  idleTimeout : ℤ := 0
  /-- Positive when the leases are limited. -/
  maxConcurrent : ℤ := 0
  dependencies : List String := []
  composeFile : String := ""

/-- **A manager**: the services that are registered with it, and whether it was given a
compose orchestrator and a health checker. -/
structure DefaultManager where
  services : GoMap String ServiceSpec := ∅
  orchestrator : Bool := true
  checker : Bool := true

namespace DefaultManager

/-- `Register`: any name but the empty one, and each name once. -/
def register (M : DefaultManager) (spec : ServiceSpec) : Except String DefaultManager :=
  if spec.name = "" then .error "lifecycle: service name is required"
  else if spec.name ∈ M.services then
    .error ("lifecycle: service " ++ quoted spec.name ++ " already registered")
  else .ok { M with services := M.services.insert spec.name spec }

/-- Whether compose is asked to start and stop a service. -/
def Composes (M : DefaultManager) (n : String) : Prop :=
  M.orchestrator = true ∧ ∃ spec ∈ M.services.lookup n, spec.composeFile ≠ ""

instance (M : DefaultManager) (n : String) : Decidable (M.Composes n) :=
  inferInstanceAs (Decidable (_ ∧ ∃ spec ∈ M.services.lookup n, _))

/-- The slots of the semaphore of a service: none, when its leases are not limited. -/
def slots (M : DefaultManager) (n : String) : ℕ :=
  ((M.services.lookup n).elim 0 ServiceSpec.maxConcurrent).toNat

end DefaultManager

/-! ### What the operations share -/

/-- The state of a service. -/
inductive ServiceState where
  | stopped
  | starting
  | running
  | stopping
  deriving DecidableEq, Repr

/-- What the manager keeps for a service. -/
structure ServiceEntry where
  state : ServiceState := .stopped
  healthy : Bool := false
  /-- The slots of the semaphore that are taken. -/
  taken : ℕ := 0
  idleCtrl : Option ℕ := none
  lazyBooter : Option ℕ := none
  activeLeases : Int32 := 0
  startOp : Option ℕ := none
  deriving DecidableEq, Repr

variable {f : ServiceEntry → ServiceEntry}

/-- The handle of a boot: whether it is over, and with which error. The service it is for is
written down for the statements. -/
structure StartOp where
  service : String := ""
  done : Bool := false
  err : Option String := none
  deriving DecidableEq, Repr

/-- How far a one-shot booter is. -/
inductive Started where
  | notStarted
  | starting
  | started
  deriving DecidableEq, Repr

/-- The one-shot booter of a lazy service: the service that its start function starts, and the
error of its one attempt. -/
structure LazyBooter where
  service : String := ""
  started : Started := .notStarted
  err : Option String := none
  deriving DecidableEq, Repr

/-- An idle timer: the service it stops, whether it was armed, and whether it is done. -/
structure IdleShutdown where
  service : String
  armed : Bool := false
  stopped : Bool := false
  deriving DecidableEq, Repr

/-- How far the release of a lease is. -/
inductive LeaseStage where
  /-- Nobody has called it. -/
  | held
  /-- It was called, and the slot is still taken. -/
  | begun
  /-- The slot is given back, and the lease is still counted. -/
  | returned
  /-- The lease is no longer counted. -/
  | released
  /-- The release has returned. -/
  | done
  deriving DecidableEq, Repr

/-- A lease that was granted. -/
structure Lease where
  service : String
  stage : LeaseStage := .held
  deriving DecidableEq, Repr

/-- What compose and the health checker did for a service. -/
inductive ComposeEvent where
  /-- The `Up` of this boot succeeded. -/
  | up (op : ℕ)
  /-- The service was found healthy by this boot. -/
  | healthy (op : ℕ)
  /-- A `Down` succeeded. -/
  | down
  deriving DecidableEq, Repr

/-- **The shared memory.** -/
structure Memory where
  entry : String → ServiceEntry := fun _ => {}
  startOp : ℕ → StartOp := fun _ => {}
  nextOp : ℕ := 0
  booter : ℕ → LazyBooter := fun _ => {}
  nextBooter : ℕ := 0
  timers : List IdleShutdown := []
  leases : List Lease := []
  log : List (String × ComposeEvent) := []

namespace Memory

variable (m : Memory) (n : String)

def modify (f : ServiceEntry → ServiceEntry) : Memory :=
  { m with entry := Function.update m.entry n (f (m.entry n)) }

def setState (state : ServiceState) : Memory := m.modify n fun e => { e with state := state }

def note (e : ComposeEvent) : Memory := { m with log := (n, e) :: m.log }

/-- What compose and the health checker did for one service, latest first. -/
def events : List ComposeEvent := (m.log.filter (·.1 = n)).map (·.2)

end Memory

theorem entry_modify {m : Memory} {n : String} :
    (m.modify n f).entry n = f (m.entry n) := update_self _ _ _

theorem entry_modify_apply {m : Memory} {n : String} (n' : String) :
    (m.modify n f).entry n' = if n' = n then f (m.entry n) else m.entry n' :=
  update_apply _ _ _ _

end Containers.Lifecycle
