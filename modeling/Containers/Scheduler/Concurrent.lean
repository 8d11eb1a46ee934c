import Containers.Scheduler.Scheduler

/-!
# Several callers at once

`Schedule`, `ScheduleBatch` and `Release` may be called from many goroutines. Each call of the first
two reads the probe and the host list on its own, before it takes the scheduler's lock; what it then
does to the shared state are single placements, each under the lock, and between two of them anybody
else may come in. The capacity a batch deducts is deducted from a copy of its own.

A `System` is the shared scheduler with the calls in flight, and a run is any list of `Action`s:
calls that start, placements, one container of one call at a time, and releases. A batch that nobody
interrupts does what `scheduleBatch` says (`run_scheduleBatch`).
-/

namespace Containers.Scheduler

open Go Remote List

/-- A call on its way: what it has read, the requirements it has yet to place, and the
decisions it has taken. -/
structure InFlight where
  hosts : List RemoteHost
  working : Snapshots
  pending : List ContainerRequirements
  decisions : List PlacementDecision

/-- The shared scheduler, with the calls in flight. -/
structure System where
  sched : DefaultScheduler
  inFlight : List InFlight

/-- What can happen next. -/
inductive Action where
  /-- A call of `Schedule` has read the probe and the host list. -/
  | schedule (snapshots : Snapshots) (hosts : List RemoteHost) (req : ContainerRequirements)
  /-- A call of `ScheduleBatch` has read them. -/
  | scheduleBatch (snapshots : Snapshots) (hosts : List RemoteHost)
      (reqs : List ContainerRequirements)
  /-- The call number `i` takes the lock and places its next container. -/
  | place (i : ℕ)
  /-- A container has left `hostName`. -/
  | release (hostName : String)

namespace System

def initial (opts : Options) : System := ⟨newScheduler opts, []⟩

variable (P : Platform)

/-- One placement of the call number `i`; a call with nothing left to place is over. -/
def place (sys : System) (i : ℕ) : System :=
  match sys.inFlight[i]? with
  | some ⟨hosts, working, req :: rest, decisions⟩ =>
    let b := batchStep P hosts ⟨sys.sched, working, decisions⟩ req
    ⟨b.sched, sys.inFlight.set i ⟨hosts, b.working, rest, b.decisions⟩⟩
  | _ => sys

def step (sys : System) : Action → System
  | .schedule snapshots hosts req =>
    { sys with inFlight := sys.inFlight ++ [⟨hosts, snapshots, [req], []⟩] }
  | .scheduleBatch snapshots hosts reqs =>
    { sys with inFlight := sys.inFlight ++ [⟨hosts, snapshots, reqs, []⟩] }
  | .place i => sys.place P i
  | .release hostName => { sys with sched := sys.sched.release hostName }

def run (sys : System) (actions : List Action) : System := actions.foldl (step P) sys

end System

variable {P : Platform}

/-- **What a placement can do**: a call with something to place takes one turn of a
batch, and nothing happens otherwise. -/
theorem System.place_cases (sys : System) (i : ℕ) :
    sys.place P i = sys ∨
      ∃ c ∈ sys.inFlight, ∃ req rest, c.pending = req :: rest ∧
        sys.place P i =
          ⟨(batchStep P c.hosts ⟨sys.sched, c.working, c.decisions⟩ req).sched,
            sys.inFlight.set i
              ⟨c.hosts, (batchStep P c.hosts ⟨sys.sched, c.working, c.decisions⟩ req).working, rest,
                (batchStep P c.hosts ⟨sys.sched, c.working, c.decisions⟩ req).decisions⟩⟩ := by
  rw [System.place]
  split
  · next hosts working req rest decisions hi =>
    exact Or.inr ⟨_, mem_of_getElem? hi, req, rest, rfl, rfl⟩
  · exact Or.inl rfl

/-! ### A call that nobody interrupts -/

theorem run_place_last (calls : List InFlight) (hosts : List RemoteHost)
    (reqs : List ContainerRequirements) (b : BatchState) :
    System.run P ⟨b.sched, calls ++ [⟨hosts, b.working, reqs, b.decisions⟩]⟩
        (replicate reqs.length (.place calls.length)) =
      ⟨(reqs.foldl (batchStep P hosts) b).sched,
        calls ++ [⟨hosts, (reqs.foldl (batchStep P hosts) b).working, [],
          (reqs.foldl (batchStep P hosts) b).decisions⟩]⟩ := by
  induction reqs generalizing b with
  | nil => rfl
  | cons req reqs ih =>
    have hplace : System.step P ⟨b.sched, calls ++ [⟨hosts, b.working, req :: reqs, b.decisions⟩]⟩
        (.place calls.length) =
        ⟨(batchStep P hosts b req).sched, calls ++ [⟨hosts, (batchStep P hosts b req).working, reqs,
          (batchStep P hosts b req).decisions⟩]⟩ := by
      simp [System.step, System.place]
    rw [length_cons, replicate_succ, System.run, foldl_cons, hplace]
    exact ih (batchStep P hosts b req)

/-- **A batch that nobody interrupts is `scheduleBatch`**, in the decisions it takes and
in the scheduler it leaves behind. -/
theorem run_scheduleBatch (sys : System) (snapshots : Snapshots) (hosts : List RemoteHost)
    (reqs : List ContainerRequirements) :
    ∃ working, System.run P sys (.scheduleBatch snapshots hosts reqs ::
        replicate reqs.length (.place sys.inFlight.length)) =
      ⟨(scheduleBatch P sys.sched snapshots hosts reqs).2, sys.inFlight ++
        [⟨hosts, working, [], (scheduleBatch P sys.sched snapshots hosts reqs).1.decisions⟩]⟩ := by
  rw [scheduleBatch_sched, scheduleBatch_decisions]
  exact ⟨_, run_place_last sys.inFlight hosts reqs ⟨sys.sched, snapshots, []⟩⟩

end Containers.Scheduler
