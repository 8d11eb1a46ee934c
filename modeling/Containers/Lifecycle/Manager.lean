import Containers.Lib.Threads
import Containers.Lifecycle.Types

/-!
# The lifecycle manager: its operations

`Start`, `Stop`, `Acquire` with the release it returns, `Shutdown` and the idle timer's `fire`, of
`pkg/lifecycle`, as threads that share a memory. An atomic step is one section that holds a mutex,
one atomic access, one slow call (a compose `Up` or `Down`, a health check), or a return; between
two of them any other thread may move. Where an operation is in its own code is a point of it
(`StartPoint` and its siblings), and a frame of a call stack is an operation with its point. A
`Start` calls `Start` for its dependencies, and the first `Acquire` of a lazy service calls it
through the booter, so stacks grow.

* A slow call comes to anything: its outcome, an error or none, is given to the step. The same
  outcome says whether a wait for a slot was cancelled, and whether a touch came between an idle
  timer's timeout and its firing.
* A thread has to wait, and takes no step, where it follows another's boot, where it finds the
  booter of a lazy service at work, where the semaphore is full, and where another thread is inside
  the same release.
* A panic in `Up` or in the health check runs through the same writes as an error – the service is
  `stopped`, and those who follow the boot are told so – and is not kept apart from it. A panic in
  `Down` is left out.
-/

namespace Containers.Lifecycle

open Go

/-! ### Where an operation is -/

/-- **Where a `Start` is.** From `deps` on it leads the boot with the handle `op`. -/
inductive StartPoint where
  /-- Before it has looked at the service. -/
  | enter
  /-- It follows another's boot. -/
  | wait (op : ℕ)
  /-- These dependencies are left. -/
  | deps (op : ℕ) (rest : List String)
  /-- The `Start` of a dependency, the next frame of the stack, is under way. -/
  | awaitDep (op : ℕ) (dep : String) (rest : List String)
  /-- Before compose is asked to start the service. -/
  | up (op : ℕ)
  /-- Before the health check. -/
  | check (op : ℕ)
  /-- The health check came to this, and is not written yet. -/
  | health (op : ℕ) (err : Option String)
  /-- The boot has failed, and this is not written yet. -/
  | fail (op : ℕ) (err : String)
  /-- Before the section that makes the service `running`. -/
  | commit (op : ℕ)
  /-- The service is `running`, and has no new idle timer yet. -/
  | monitor (op : ℕ)
  /-- The new idle timer is not armed yet. -/
  | arm (op : ℕ) (timer : ℕ)
  /-- Before those who follow the boot are told. -/
  | finish (op : ℕ) (err : Option String)
  deriving DecidableEq, Repr

/-- **Where a `Stop` is.** After its first section it knows the state it `found`. -/
inductive StopPoint where
  /-- Before it has looked at the service. -/
  | enter
  /-- Before the idle timer is stopped. -/
  | quiet (found : ServiceState) (timer : Option ℕ)
  /-- Before compose is asked to stop the service. -/
  | down (found : ServiceState)
  /-- Compose is at work. -/
  | downing (found : ServiceState)
  /-- Compose came to this, and the state is not written yet. -/
  | write (found : ServiceState) (err : Option String)
  deriving DecidableEq, Repr

/-- **Where an `Acquire` is.** -/
inductive AcquirePoint where
  /-- Before it has looked at the service. -/
  | enter
  /-- Before it takes the booter of a lazy service, or makes one. -/
  | lazy
  /-- Before it makes sure that the booter has run. -/
  | ensure (booter : ℕ)
  /-- The `Start` of the booter, the next frame of the stack, is under way. -/
  | booting (booter : ℕ)
  /-- The booter failed. -/
  | bootFailed (booter : ℕ) (err : String)
  /-- Before the section that counts the lease. -/
  | gate
  /-- The lease is counted, and has no slot yet. -/
  | slot
  /-- The lease has a slot; the state is to be looked at once more. -/
  | recheck
  /-- The service has been stopped meanwhile: the slot goes back. -/
  | unslot
  /-- The count goes back. -/
  | uncount (err : String)
  /-- Before it reads the idle timer. -/
  | readIdle
  /-- Before it touches the idle timer. -/
  | touch (timer : Option ℕ)
  /-- Before it returns. -/
  | grant
  deriving DecidableEq, Repr

/-- **Where the release of a lease is.** -/
inductive ReleasePoint where
  | enter
  | slot
  | uncount
  | readIdle
  | touch (timer : Option ℕ)
  deriving DecidableEq, Repr

/-- **A frame of a call stack.** -/
inductive Frame where
  | start (n : String) (p : StartPoint)
  /-- `idle` when the idle timer called it. -/
  | stop (n : String) (idle : Bool) (p : StopPoint)
  | acquire (n : String) (p : AcquirePoint)
  | release (lease : ℕ) (p : ReleasePoint)
  /-- The idle timer has expired. -/
  | fire (timer : ℕ)
  /-- The services that are left to stop, and the first error so far. -/
  | shutdown (rest : List String) (firstErr : Option String)
  /-- The call has returned this error, or none. -/
  | ret (err : Option String)
  deriving DecidableEq, Repr

/-! ### The steps of the operations -/

/-- The error of every operation on a name that is not registered. -/
def notFound (n : String) : String := "lifecycle: service " ++ quoted n ++ " not found"

/-- The leader's first section: the service is `starting`, with a new handle. -/
def Memory.lead (m : Memory) (n : String) : Memory :=
  { m.modify n fun e => { e with state := .starting, startOp := some m.nextOp } with
    startOp := Function.update m.startOp m.nextOp { service := n }
    nextOp := m.nextOp + 1 }

/-- The leader's last section: it still owns the boot, and the service is `running`; or a
`Stop` has come between, and the service is `stopped`; or another boot has, and nothing is
touched. -/
def Memory.commit (m : Memory) (n : String) (op : ℕ) : Memory :=
  if (m.entry n).startOp = some op then
    if (m.entry n).state = .starting then m.setState n .running
    else m.modify n fun e => { e with state := .stopped, healthy := false }
  else m

/-- The leader's way out: those who follow the boot are told what it came to. -/
def Memory.settle (m : Memory) (op : ℕ) (err : Option String) : Memory :=
  { m with startOp := Function.update m.startOp op { m.startOp op with done := true, err := err } }

def Memory.newBooter (m : Memory) (n : String) : Memory :=
  { m.modify n fun e => { e with lazyBooter := some m.nextBooter } with
    booter := Function.update m.booter m.nextBooter { service := n }
    nextBooter := m.nextBooter + 1 }

def Memory.setBooter (m : Memory) (b : ℕ) (x : LazyBooter) : Memory :=
  { m with booter := Function.update m.booter b x }

variable (M : DefaultManager) (m : Memory) (o : Option String)

/-- `Start`. -/
def startStep (n : String) : StartPoint → Option (Memory × List Frame)
  | .enter => (M.services.lookup n).elim (some (m, [.ret (some (notFound n))])) fun spec =>
    match (m.entry n).state with
    | .running => some (m, [.ret none])
    | .starting => (m.entry n).startOp.elim (some (m, [.ret none])) fun op =>
        some (m, [.start n (.wait op)])
    | .stopped | .stopping =>
        some (m.lead n, [.start n (.deps m.nextOp spec.dependencies)])
  | .wait op => if (m.startOp op).done then some (m, [.ret (m.startOp op).err]) else none
  | .deps op [] => some (m, [.start n (.up op)])
  | .deps op (dep :: rest) => some (m, [.start dep .enter, .start n (.awaitDep op dep rest)])
  | .awaitDep _ _ _ => none
  | .up op =>
    if M.Composes n then
      match o with
      | none => some (m.note n (.up op), [.start n (.check op)])
      | some err =>
          some (m, [.start n (.fail op ("lifecycle: start " ++ quoted n ++ ": " ++ err))])
    else some (m, [.start n (.check op)])
  | .check op =>
    if M.checker then
      some (if o.isNone then m.note n (.healthy op) else m, [.start n (.health op o)])
    else some (m, [.start n (.commit op)])
  | .health op none =>
      some (m.modify n fun e => { e with healthy := true }, [.start n (.commit op)])
  | .health op (some err) =>
      some (m.modify n fun e => { e with healthy := false },
        [.start n (.fail op ("lifecycle: health check " ++ quoted n ++ ": " ++
          (if err = "" then "unhealthy (no error detail)" else err)))])
  | .fail op err => some (m.setState n .stopped, [.start n (.finish op (some err))])
  | .commit op =>
      some (m.commit n op, [.start n (
        if (m.entry n).startOp = some op ∧ (m.entry n).state = .starting then .monitor op
        else .finish op (some ("lifecycle: start " ++ quoted n ++
          " cancelled by concurrent stop")))])
  | .monitor op =>
    if 0 < (M.services.lookup n).elim 0 ServiceSpec.idleTimeout then
      some ({ m.modify n fun e => { e with idleCtrl := some m.timers.length } with
          timers := m.timers ++ [{ service := n }] }, [.start n (.arm op m.timers.length)])
    else some (m, [.start n (.finish op none)])
  | .arm op timer =>
      some ({ m with timers := m.timers.modify timer fun t =>
        { t with armed := true, stopped := false } }, [.start n (.finish op none)])
  | .finish op err => some (m.settle op err, [.ret err])

/-- `Stop`. -/
def stopStep (n : String) (idle : Bool) : StopPoint → Option (Memory × List Frame)
  | .enter =>
    if n ∈ M.services then
      if (m.entry n).state = .stopped then some (m, [.ret none])
      else some (m.setState n .stopping,
        [.stop n idle (.quiet (m.entry n).state (m.entry n).idleCtrl)])
    else some (m, [.ret (some (notFound n))])
  | .quiet found timer =>
      some (timer.elim m fun t =>
          { m with timers := m.timers.modify t fun t => { t with stopped := true } },
        [.stop n idle (.down found)])
  | .down found =>
      some (m, [.stop n idle (if M.Composes n then .downing found else .write found none)])
  | .downing found =>
      some (if o.isNone then m.note n .down else m, [.stop n idle (.write found o)])
  | .write _ none =>
      some (m.modify n fun e =>
        { e with state := .stopped, healthy := false, lazyBooter := none }, [.ret none])
  | .write _ (some err) =>
      some (m.setState n .running,
        [.ret (some ("lifecycle: stop " ++ quoted n ++ ": " ++ err))])

/-- `Acquire`. -/
def acquireStep (n : String) : AcquirePoint → Option (Memory × List Frame)
  | .enter => (M.services.lookup n).elim (some (m, [.ret (some (notFound n))])) fun spec =>
      some (m, [.acquire n (if spec.lazyBoot then .lazy else .gate)])
  | .lazy => (m.entry n).lazyBooter.elim
      (some (m.newBooter n, [.acquire n (.ensure m.nextBooter)]))
      fun b => some (m, [.acquire n (.ensure b)])
  | .ensure b =>
    match (m.booter b).started with
    | .notStarted =>
        some (m.setBooter b { m.booter b with started := .starting },
          [.start (m.booter b).service .enter, .acquire n (.booting b)])
    | .starting => none
    | .started =>
        some (m, [.acquire n ((m.booter b).err.elim .gate fun err => .bootFailed b err)])
  | .booting _ => none
  | .bootFailed b err =>
      some (if (m.entry n).lazyBooter = some b then m.modify n fun e =>
        { e with lazyBooter := none }
        else m, [.ret (some ("lifecycle: lazy boot " ++ quoted n ++ ": " ++ err))])
  | .gate =>
    if (m.entry n).state = .running then
      some (m.modify n fun e => { e with activeLeases := e.activeLeases + 1 }, [.acquire n .slot])
    else some (m, [.ret (some ("lifecycle: service " ++ quoted n ++ " is not running"))])
  | .slot =>
    if M.slots n = 0 then some (m, [.acquire n .recheck])
    else o.elim
      (if (m.entry n).taken < M.slots n then
        some (m.modify n fun e => { e with taken := e.taken + 1 }, [.acquire n .recheck])
      else none)
      fun err => some (m, [.acquire n (.uncount
        ("lifecycle: semaphore " ++ quoted n ++ ": semaphore: " ++ err))])
  | .recheck =>
      some (m, [.acquire n (if (m.entry n).state = .running then .readIdle else .unslot)])
  | .unslot =>
      some (m.modify n fun e => { e with taken := e.taken - 1 },
        [.acquire n (.uncount ("lifecycle: service " ++ quoted n ++ " stopped during acquire"))])
  | .uncount err =>
      some (m.modify n fun e => { e with activeLeases := e.activeLeases - 1 }, [.ret (some err)])
  | .readIdle => some (m, [.acquire n (.touch (m.entry n).idleCtrl)])
  | .touch _ => some (m, [.acquire n .grant])
  | .grant => some ({ m with leases := m.leases ++ [{ service := n }] }, [.ret none])

/-- The release of a lease: the first call does the work, one that comes during the work
waits, and later ones do nothing. -/
def releaseStep (l : ℕ) (lease : Lease) : ReleasePoint → Option (Memory × List Frame)
  | .enter =>
    match lease.stage with
    | .held => some ({ m with leases := m.leases.set l { lease with stage := .begun } },
        [.release l .slot])
    | .begun | .returned | .released => none
    | .done => some (m, [.ret none])
  | .slot =>
      some ({ m.modify lease.service fun e => { e with taken := e.taken - 1 } with
        leases := m.leases.set l { lease with stage := .returned } }, [.release l .uncount])
  | .uncount =>
      some ({ m.modify lease.service fun e => { e with activeLeases := e.activeLeases - 1 } with
        leases := m.leases.set l { lease with stage := .released } }, [.release l .readIdle])
  | .readIdle => some (m, [.release l (.touch (m.entry lease.service).idleCtrl)])
  | .touch _ =>
      some ({ m with leases := m.leases.set l { lease with stage := .done } }, [.ret none])

/-- `fire`: nothing if the timer is stopped, if there was a touch meanwhile, or if a lease is
counted; otherwise the timer is done, and stops the service. -/
def fireStep (t : ℕ) (timer : IdleShutdown) : Option (Memory × List Frame) :=
  if timer.stopped ∨ o.isSome ∨ 0 < (m.entry timer.service).activeLeases then some (m, [.ret none])
  else some ({ m with timers := m.timers.set t { timer with stopped := true } },
    [.stop timer.service true .enter])

/-- `Shutdown`: one service after the other. -/
def shutdownStep (firstErr : Option String) : List String → Option (Memory × List Frame)
  | [] => some (m, [.ret firstErr])
  | n :: rest => some (m, [.stop n false .enter, .shutdown rest firstErr])

def Frame.step : Frame → Option (Memory × List Frame)
  | .start n p => startStep M m o n p
  | .stop n idle p => stopStep M m o n idle p
  | .acquire n p => acquireStep M m o n p
  | .release l p => m.leases[l]?.bind fun lease => releaseStep m l lease p
  | .fire t => m.timers[t]?.bind fun timer => fireStep m o t timer
  | .shutdown rest firstErr => shutdownStep m firstErr rest
  | .ret _ => none

/-- **A call returns to its caller**: to a boot with one dependency less to start, or one
that has failed; to a lazy `Acquire`, whose booter has now run; or to a `Shutdown`. -/
def Frame.resume (err : Option String) : Frame → Option (Memory × List Frame)
  | .start n (.awaitDep op dep rest) =>
      some (m, [.start n (err.elim (.deps op rest) fun err =>
        .fail op ("lifecycle: dependency " ++ quoted dep ++ " for " ++ quoted n ++ ": " ++ err))])
  | .acquire n (.booting b) =>
      some (m.setBooter b { m.booter b with started := .started, err := err },
        [.acquire n (err.elim .gate fun err => .bootFailed b err)])
  | .shutdown rest firstErr => some (m, [.shutdown rest (firstErr.or err)])
  | _ => none

def threadStep : List Frame → Option (Memory × List Frame)
  | [] => none
  | [.ret _] => some (m, [])
  | .ret err :: f :: rest => (f.resume m err).map fun r => (r.1, r.2 ++ rest)
  | f :: rest => (f.step M m o).map fun r => (r.1, r.2 ++ rest)

/-! ### The system -/

/-- What is called from outside: the operations, the release of a lease that was granted, and
the expiry of a timer that was armed. `Shutdown` goes through the services in some order. -/
inductive Call where
  | start (n : String)
  | stop (n : String)
  | acquire (n : String)
  | release (lease : ℕ)
  | expire (timer : ℕ)
  | shutdown (names : List String)
  deriving DecidableEq, Repr

def call : Call → Option (List Frame)
  | .start n => some [.start n .enter]
  | .stop n => some [.stop n false .enter]
  | .acquire n => some [.acquire n .enter]
  | .release l => if l < m.leases.length then some [.release l .enter] else none
  | .expire t => if (m.timers[t]?.elim false IdleShutdown.armed) then some [.fire t] else none
  | .shutdown names => some [.shutdown names none]

/-- **The manager as a system of threads.** -/
def system : ThreadSystem Memory Frame (Option String) Call where
  call := call
  step := threadStep M

abbrev State := ThreadSystem.State Memory Frame

abbrev Action := ThreadSystem.Action (Option String) Call

def initial : State := ⟨{}, []⟩

end Containers.Lifecycle
