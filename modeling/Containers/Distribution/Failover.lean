import Containers.Distribution.Distributor

/-!
# Failover, and histories of a distributor

`CheckAndFailover` of `pkg/distribution/failover.go`: find the hosts that do not answer, mark what
runs there as migrating, and ask the scheduler where it could go. The answer is reported and not
acted upon.

With it the operations on a distributor are complete, and `after` is the state and the history after
any sequence of them, against any environment.
-/

namespace Containers.Distribution

open Go Remote Scheduler Prog List

variable {opts : Options} {I : DefaultDistributor → History → Prop}
  {S : History → Event Outcome → Prop}

/-- A single container migration. -/
structure FailoverAction where
  containerName : String
  originalHost : String
  newHost : String := ""
  reason : String := "host offline"
  deriving DecidableEq, Repr

namespace DefaultDistributor

def findOffline (offline : List String) (dc : DistributedContainer) : Act (List String) :=
  if dc.hostName = "" ∨ dc.hostName = "local" ∨ dc.hostName ∈ offline then pure offline
  else do
    match ← seam (.getHost dc.hostName) with
    -- a host that is no longer registered counts as offline, without a warning
    | none => pure (dc.hostName :: offline)
    | some host =>
      match ← seam (.isReachable host) with
      | true => pure offline
      | false =>
        seam (.log (.hostOffline dc.hostName))
        pure (dc.hostName :: offline)

/-- Mark the running entries of the affected names as migrating. -/
def markMigrating (affected : List String) (dc : DistributedContainer) : DistributedContainer :=
  if dc.requirement.name ∈ affected ∧ dc.state = .running then { dc with state := .migrating }
  else dc

theorem markMigrating_hostName (affected : List String) (dc : DistributedContainer) :
    (markMigrating affected dc).hostName = dc.hostName := by
  rw [markMigrating]
  split_ifs <;> rfl

/-- The actions with the hosts of a plan filled in, as far as it goes. -/
def fillNewHosts (actions : List FailoverAction) (decisions : List PlacementDecision) :
    List FailoverAction :=
  actions.mapIdx fun i a =>
    match decisions[i]? with
    | some decision => { a with newHost := decision.hostName }
    | none => a

/-- **`CheckAndFailover`**. -/
def checkAndFailover (d : DefaultDistributor) :
    Act (DefaultDistributor × List FailoverAction × Option String) :=
  if !d.opts.hostManager || !d.opts.executor then
    pure (d, [], some "host manager and executor required for failover")
  else do
    let offline ← d.containers.foldlM findOffline []
    if offline = [] then pure (d, [], none)
    else do
      let stranded := d.containers.filter (·.hostName ∈ offline)
      let actions := stranded.map fun dc =>
        ({ containerName := dc.requirement.name, originalHost := dc.hostName } : FailoverAction)
      let d := { d with
        containers := d.containers.map (markMigrating (stranded.map (·.requirement.name))) }
      if !d.opts.scheduler || stranded.isEmpty then pure (d, actions, none)
      else do
        match ← seam (.scheduleBatch (stranded.map (·.requirement))) with
        | .error err => pure (d, actions, some ("failover reschedule: " ++ err))
        | .ok plan => pure (d, fillNewHosts actions plan.decisions, none)

end DefaultDistributor

/-! ### Histories -/

/-- The operations on a distributor. -/
inductive Op where
  | distribute (reqs : List ContainerRequirements)
  | rebalance
  | undistribute
  | checkAndFailover

def Op.act (d : DefaultDistributor) : Op → Act DefaultDistributor
  | .distribute reqs => do let r ← d.distribute reqs; pure r.1
  | .rebalance => do let r ← d.rebalance; pure r.1
  | .undistribute => d.undistribute
  | .checkAndFailover => do let r ← d.checkAndFailover; pure r.1

/-- An environment: what every call is answered, knowing all that came before. -/
abbrev Env := History → (c : SeamCall) → Outcome c

/-- **The distributor and its history after a sequence of operations**, from one that has
just been configured. -/
def after (env : Env) (opts : Options) (ops : List Op) : DefaultDistributor × History :=
  (ops.foldlM Op.act (⟨opts, []⟩ : DefaultDistributor)).run env []

/-- **The rule for histories**: an invariant of the distributor and of its history that holds
at the start and is kept by every operation, under an assumption on the outcomes, holds
after every sequence of operations whose outcomes met it. -/
theorem after_induction
    (hinit : I ⟨opts, []⟩ []) (hstep : ∀ d t op, I d t → (Op.act d op).wp S I t) (env : Env)
    (ops : List Op) (hS : Trace.Holds S (after env opts ops).2) :
    I (after env opts ops).1 (after env opts ops).2 := by
  have hwp : (ops.foldlM Op.act (⟨opts, []⟩ : DefaultDistributor)).wp S I [] :=
    wp_foldlM (fun _ => I) hinit fun _ op _ d t _ h => hstep d t op h
  exact hwp.of_run env hS

theorem after_append (env : Env) (opts : Options) (ops : List Op) (op : Op) :
    after env opts (ops ++ [op]) =
      (op.act (after env opts ops).1).run env (after env opts ops).2 := by
  rw [after, run_foldlM_append, foldlM_cons, run_bind]
  rfl

theorem mem_after_of_mem {env : Env} {pre : List Op} {e : Event Outcome}
    (h : e ∈ (after env opts pre).2) (post : List Op) : e ∈ (after env opts (pre ++ post)).2 := by
  rw [after, run_foldlM_append]
  obtain ⟨new, hnew⟩ := run_trace env (post.foldlM Op.act (after env opts pre).1)
    (after env opts pre).2
  exact hnew ▸ mem_append_right new h

/-- **The rule for histories with a condition on each step**: an invariant that the
operations keep when they are begun under a condition `K` holds after every sequence of
operations each of which was begun under it. -/
theorem after_induction_of
    {K : DefaultDistributor → Op → Prop} (hinit : I ⟨opts, []⟩ [])
    (hstep : ∀ d t op, I d t → K d op → (Op.act d op).wp S I t) (env : Env) (ops : List Op)
    (hS : Trace.Holds S (after env opts ops).2)
    (hK : ∀ pre op post, ops = pre ++ op :: post → K (after env opts pre).1 op) :
    I (after env opts ops).1 (after env opts ops).2 := by
  induction ops using reverseRecOn with
  | nil => exact hinit
  | append_singleton ops op ih =>
    rw [after_append] at hS ⊢
    -- the history so far is the older part of the whole one
    obtain ⟨new, hnew⟩ :=
      run_trace env (op.act (after env opts ops).1) (after env opts ops).2
    have hold := ih (hnew ▸ hS).of_append fun pre op' post heq =>
      hK pre op' (post ++ [op]) (by rw [heq, append_assoc, cons_append])
    exact (hstep _ _ op hold (hK ops op [] rfl)).of_run env hS

theorem after_answered (env : Env) (opts : Options) (ops : List Op) :
    Trace.Holds (fun t e => e.outcome = env t e.call) (after env opts ops).2 :=
  run_answered env _ trivial

end Containers.Distribution
