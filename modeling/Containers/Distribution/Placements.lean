import Containers.Distribution.Tracking
import Containers.Scheduler.Scheduler

/-!
# The distributor and its scheduler

A distributor reaches its scheduler through the `Scheduler` interface, and `Release` is not part of
it. So when the two are put together – the scheduler's state being what its earlier calls have left
(`schedulerAfter`), and its plans what that state decides (`withScheduler`) – the placement counts
only ever grow. They count the decisions taken, a redeployment and a failover plan included
(`placements_eq_planned`), and so they are the containers that are tracked only until something is
distributed or taken down a second time (`placements_eq_tracked`).
-/

namespace Containers.Distribution

open Go Remote Scheduler DefaultDistributor Prog List

/-! ### The composed system -/

section Composed

variable (P : Platform) (s₀ : DefaultScheduler) (probe : History → Snapshots)
  (list : History → List RemoteHost)

/-- **The state of the scheduler** after a history in which nobody but the distributor called
it; `probe` and `list` are what the host manager tells it at each point. -/
def schedulerAfter : History → DefaultScheduler
  | [] => s₀
  | ⟨.scheduleBatch reqs, _⟩ :: t =>
    (scheduleBatch P (schedulerAfter t) (probe t) (list t) reqs).2
  | _ :: t => schedulerAfter t

/-- An environment in which the scheduler is the one of `pkg/scheduler`. -/
def withScheduler (env : Env) : Env := fun t c =>
  match c with
  | .scheduleBatch reqs =>
    .ok (scheduleBatch P (schedulerAfter P s₀ probe list t) (probe t) (list t) reqs).1
  | c => env t c

end Composed

/-- How often the plans of a history have decided for the host `h`. -/
def planned (h : String) : History → ℕ
  | [] => 0
  | ⟨.scheduleBatch _, .ok plan⟩ :: t => plan.decisions.countP (·.PlacedOn h) + planned h t
  | _ :: t => planned h t

/-- The containers tracked on the host `h` as running or migrating. -/
def trackedOn (d : DefaultDistributor) (h : String) : ℕ :=
  d.containers.countP fun dc => stateNeedsTeardown dc.state && dc.hostName = h

variable {P : Platform} {s₀ : DefaultScheduler} {probe : History → Snapshots}
  {list : History → List RemoteHost} {env : Env} {h : String} {t : History}

/-- **The placement counts are the decisions taken**, as words. -/
theorem schedulerAfter_placements (hs₀ : s₀.placements h = 0)
    (ht : Trace.Holds (fun t e => e.outcome = withScheduler P s₀ probe list env t e.call) t) :
    (schedulerAfter P s₀ probe list t).placements h = wrapInt64 (planned h t) := by
  induction t with
  | nil => exact hs₀.trans (wrapInt64_of_mem (by norm_num [planned]) (by norm_num [planned])).symm
  | cons e t ih =>
    obtain ⟨c, o⟩ := e
    obtain ⟨ho, ht⟩ := ht
    have ih := ih ht
    cases c with
    | scheduleBatch reqs =>
      -- the plan in the history is the one the scheduler's state decided
      obtain rfl : o = .ok _ := ho
      rw [schedulerAfter, scheduleBatch_placements _ _ _ _ ih, planned, add_comm, Nat.cast_add]
    | _ => exact ih

theorem schedulerAfter_opts (t : History) : (schedulerAfter P s₀ probe list t).opts = s₀.opts := by
  induction t with
  | nil => rfl
  | cons e t ih =>
    obtain ⟨c, o⟩ := e
    cases c with
    | scheduleBatch reqs =>
      rw [schedulerAfter, scheduleBatch_sched]
      exact batch_induction P (motive := fun b => b.sched.opts = s₀.opts) ih
        fun b _ hb req _ => (batchStep_opts ..).trans hb
    | _ => exact ih

/-- **The placement counts are the decisions taken.** After every sequence of operations on a
distributor that is the only user of its scheduler, whatever the other seams answered, the
placement count of a host is the number of decisions for it in all the plans so far, kept in
a word. -/
theorem placements_eq_planned (sopts : Scheduler.Options) (opts : Options) (ops : List Op)
    (h : String) :
    let run := after (withScheduler P (newScheduler sopts) probe list env) opts ops
    (schedulerAfter P (newScheduler sopts) probe list run.2).placements h =
      wrapInt64 (planned h run.2) :=
  schedulerAfter_placements rfl (after_answered _ opts ops)

/-! ### Deployments that succeed -/

/-- **A call came to what it was made for**, as far as a deployment or a failover looks at it;
a probed host is reachable. -/
def succeeded : Event Outcome → Bool
  | ⟨.ctxErr, o⟩ => o.isNone
  | ⟨.getHost _, o⟩ => o.isSome
  | ⟨.execute _ _, .ok result⟩ => result.exitCode = 0
  | ⟨.execute _ _, .error _⟩ => false
  | ⟨.isReachable _, o⟩ => o
  | ⟨.localStart _, o⟩ => o.isNone
  | ⟨.createTunnel _ _, o⟩ => o.isOk
  | ⟨.mount _, o⟩ => o.isNone
  | _ => true

variable {S : History → Event Outcome → Prop} {opts : Options} {d : DefaultDistributor}
  (hS : ∀ t e, S t e → succeeded e = true)

include hS

theorem wp_startContainer_succeeds (hlocal : opts.localRuntime = true)
    (hexec : opts.executor = true) (hman : opts.hostManager = true) (dc : DistributedContainer) :
    (startContainer opts dc).wp S (fun err t' => err = none ∧ planned h t' = planned h t) t := by
  rw [startContainer]
  split_ifs
  · rw [deployLocal, hlocal]
    exact fun err hs => ⟨Option.isNone_iff_eq_none.mp (hS _ _ hs), rfl⟩
  · rw [deployRemote, hexec, hman]
    refine wp_seam fun host hhost => ?_
    obtain ⟨host, rfl⟩ := Option.isSome_iff_exists.mp (hS _ _ hhost)
    refine wp_seam fun removed _ => wp_seam fun result hresult => ?_
    cases result with
    | error err => exact absurd (hS _ _ hresult) Bool.false_ne_true
    | ok result =>
      have hexit : result.exitCode = 0 := of_decide_eq_true (hS _ _ hresult)
      dsimp only
      rw [if_neg (not_not.mpr hexit)]
      exact ⟨rfl, rfl⟩

theorem wp_wireTunnelsAndVolumes_succeeds (dc : DistributedContainer) :
    (wireTunnelsAndVolumes opts dc).wp S
      (fun r t' => r.2 = none ∧ r.1.hostName = dc.hostName ∧ planned h t' = planned h t) t := by
  rw [wireTunnelsAndVolumes]
  split_ifs
  · exact ⟨rfl, rfl, rfl⟩
  · refine (wp_foldlM (fun _ (w : Wiring) t' => w.error = none ∧ w.dc.hostName = dc.hostName ∧
      planned h t' = planned h t) ⟨rfl, rfl, rfl⟩ ?_).bind fun w t₁ hw => ?_
    · rintro - p - w t' - ⟨herr, hhost, ht'⟩
      rw [wireTunnel]
      split_ifs
      · exact ⟨herr, hhost, ht'⟩
      · refine wp_seam fun result hresult => ?_
        cases result with
        | error err => exact absurd (hS _ _ hresult) Bool.false_ne_true
        | ok info => exact ⟨herr, hhost, ht'⟩
    · refine (wp_foldlM (fun _ (w : Wiring) t' => w.error = none ∧ w.dc.hostName = dc.hostName ∧
        planned h t' = planned h t) hw ?_).bind fun w t₂ hw => hw
      rintro - m - w t' - ⟨herr, hhost, ht'⟩
      rw [wireVolume, if_neg (by simp [herr])]
      refine wp_seam fun result hresult => ?_
      obtain rfl := Option.isNone_iff_eq_none.mp (hS _ _ hresult)
      exact ⟨herr, hhost, ht'⟩

/-- **A turn of the deploy loop** adds an entry on the host that was decided, running unless the
decision carries the sentinel. -/
theorem wp_deployDecision_succeeds (hlocal : opts.localRuntime = true)
    (hexec : opts.executor = true) (hman : opts.hostManager = true) (r : Round)
    (x : PlacementDecision) :
    (deployDecision opts r x).wp S (fun r' t' => (∃ dc, r'.containers = r.containers ++ [dc] ∧
      dc.hostName = x.hostName ∧ stateNeedsTeardown dc.state = decide (x.score ≠ 0)) ∧
      planned h t' = planned h t) t := by
  refine wp_seam fun cancelled hctx => ?_
  obtain rfl := Option.isNone_iff_eq_none.mp (hS _ _ hctx)
  dsimp only
  split_ifs with hscore
  · exact ⟨⟨_, rfl, rfl, by simp [hscore, stateNeedsTeardown]⟩, rfl⟩
  · rw [deployContainer, wp_bind, wp_bind]
    refine (wp_startContainer_succeeds hS hlocal hexec hman _ (h := h)).mono ?_
    rintro err t₁ ⟨rfl, ht₁⟩
    refine (wp_wireTunnelsAndVolumes_succeeds hS _ (h := h)).bind ?_
    rintro ⟨dc, err⟩ t₂ ⟨rfl, hhost, ht₂⟩
    exact ⟨⟨_, rfl, hhost, by simp [hscore, stateNeedsTeardown]⟩, ht₂.trans ht₁⟩

/-- **The deploy loop tracks what was placed**: for each host, as many running entries as there
are decisions for it. -/
theorem wp_deployLoop_succeeds (hlocal : opts.localRuntime = true)
    (hexec : opts.executor = true) (hman : opts.hostManager = true)
    {decisions : List PlacementDecision}
    (hscore : ∀ x ∈ decisions, x.PlacedOn h → x.score ≠ 0) (hne : h ≠ "") {r : Round}
    (hr : r.containers = []) :
    (decisions.foldlM (deployDecision opts) r).wp S (fun r' t' =>
      trackedOn { d with containers := r'.containers } h = decisions.countP (·.PlacedOn h) ∧
        planned h t' = planned h t) t := by
  refine wp_foldlM (fun (done : List PlacementDecision) (r' : Round) t' =>
    trackedOn { d with containers := r'.containers } h = done.countP (·.PlacedOn h) ∧
      planned h t' = planned h t) ⟨by rw [hr]; rfl, rfl⟩ ?_
  rintro done x rest r' t₁ rfl ⟨hdone, ht₁⟩
  refine (wp_deployDecision_succeeds hS hlocal hexec hman r' x (h := h)).mono ?_
  rintro r'' t₂ ⟨⟨dc, hcs, hhost, hstate⟩, ht₂⟩
  refine ⟨?_, ht₂.trans ht₁⟩
  have hone : (stateNeedsTeardown dc.state && decide (dc.hostName = h)) =
      decide (x.PlacedOn h) := by
    rw [hstate, hhost, ← Bool.decide_and, decide_eq_decide]
    exact ⟨fun hx => ⟨hx.2 ▸ hne, hx.2⟩, fun hx => ⟨hscore x (by simp) hx, hx.2⟩⟩
  rw [trackedOn, hcs, countP_append, countP_append, countP_singleton, countP_singleton, hone]
  exact congrArg (· + _) hdone

/-! ### One round, and no other -/

omit hS in
theorem wp_closeTunnels_planned :
    (closeTunnels opts).wp S (fun _ t' => planned h t' = planned h t) t := by
  rw [closeTunnels]
  split_ifs
  · exact fun _ _ => rfl
  · exact rfl

omit hS in
theorem wp_unmountVolumes_planned :
    (unmountVolumes opts).wp S (fun _ t' => planned h t' = planned h t) t := by
  rw [unmountVolumes]
  split_ifs
  · exact fun _ _ => rfl
  · exact rfl

/-- **Looking for failed hosts** finds none, and decides nothing. -/
theorem wp_checkAndFailover_counted (hd : trackedOn d h = planned h t) :
    d.checkAndFailover.wp S (fun r t' => trackedOn r.1 h = planned h t' ∧ r.1.opts = d.opts) t := by
  rw [checkAndFailover]
  split_ifs
  · exact ⟨hd, rfl⟩
  · refine (wp_foldlM (fun _ (offline : List String) t' => offline = [] ∧
      planned h t' = planned h t) ⟨rfl, rfl⟩ ?_).bind ?_
    · rintro - dc - offline t' - ⟨rfl, ht'⟩
      rw [findOffline]
      split_ifs
      · exact ⟨rfl, ht'⟩
      · refine wp_seam fun found hfound => ?_
        obtain ⟨host, rfl⟩ := Option.isSome_iff_exists.mp (hS _ _ hfound)
        refine wp_seam fun reachable hreachable => ?_
        obtain rfl : reachable = true := hS _ _ hreachable
        exact ⟨rfl, ht'⟩
    · rintro offline t' ⟨rfl, ht'⟩
      rw [if_pos rfl]
      exact ⟨hd.trans ht'.symm, rfl⟩

variable (hplan : ∀ t reqs o, S t ⟨.scheduleBatch reqs, o⟩ → ∃ plan, o = .ok plan ∧
  ∀ x ∈ plan.decisions, x.PlacedOn h → x.score ≠ 0)

include hplan

/-- **The first round** counts what it tracks. -/
theorem wp_distribute_counted (hlocal : d.opts.localRuntime = true)
    (hexec : d.opts.executor = true) (hman : d.opts.hostManager = true) (hne : h ≠ "")
    (hnone : d.containers = []) (hd : trackedOn d h = planned h t)
    (reqs : List ContainerRequirements) :
    (d.distribute reqs).wp S
    (fun r t' => trackedOn r.1 h = planned h t' ∧ r.1.opts = d.opts) t := by
  have hzero : planned h t = 0 := by
    rw [← hd, trackedOn, hnone, countP_nil]
  rw [distribute]
  split_ifs
  · exact ⟨hd, rfl⟩
  · refine wp_seam fun result hresult => ?_
    obtain ⟨plan, rfl, hscore⟩ := hplan _ _ _ hresult
    refine (wp_deployLoop_succeeds hS hlocal hexec hman hscore hne (d := d) rfl).bind ?_
    rintro r t' ⟨hr, ht'⟩
    -- nothing was tracked before, so nothing is torn down
    rw [hnone]
    refine ⟨hr.trans ?_, rfl⟩
    rw [ht', planned, hzero, add_zero]

/-- **Every operation keeps the count**, if it is a failover or nothing is tracked. -/
theorem wp_act_counted (hlocal : d.opts.localRuntime = true) (hexec : d.opts.executor = true)
    (hman : d.opts.hostManager = true) (hne : h ≠ "") (hd : trackedOn d h = planned h t) {op : Op}
    (hop : op = .checkAndFailover ∨ d.containers = []) :
    (op.act d).wp S (fun d' t' => trackedOn d' h = planned h t' ∧ d'.opts = d.opts) t := by
  cases op with
  | distribute reqs =>
    rw [Op.act, wp_bind]
    exact wp_distribute_counted hS hplan hlocal hexec hman hne (hop.resolve_left (by simp)) hd reqs
  | rebalance =>
    rw [Op.act, wp_bind, DefaultDistributor.rebalance]
    split_ifs
    · exact ⟨hd, rfl⟩
    · exact wp_distribute_counted hS hplan hlocal hexec hman hne (hop.resolve_left (by simp)) hd _
  | undistribute =>
    have hnone := hop.resolve_left (by simp)
    have hzero : planned h t = 0 := by
      rw [← hd, trackedOn, hnone, countP_nil]
    rw [Op.act, undistribute, hnone, wp_bind]
    refine (wp_closeTunnels_planned (h := h)).bind fun _ t₁ ht₁ => ?_
    refine (wp_unmountVolumes_planned (h := h)).bind fun _ t₂ ht₂ => ?_
    exact fun _ _ => ⟨((ht₂.trans ht₁).trans hzero).symm, rfl⟩
  | checkAndFailover =>
    rw [Op.act, wp_bind]
    exact wp_checkAndFailover_counted hS hd

omit hS hplan

theorem scheduleBatch_score_ne_zero {s : DefaultScheduler} {snapshots : Snapshots}
    {hosts : List RemoteHost} (reqs : List ContainerRequirements) :
    ∀ x ∈ (scheduleBatch P s snapshots hosts reqs).1.decisions, x.PlacedOn h → x.score ≠ 0 := by
  rw [scheduleBatch_decisions]
  refine batch_induction P (motive := fun b => ∀ x ∈ b.decisions, x.PlacedOn h → x.score ≠ 0)
    (forall_mem_nil _) fun b _ hb req _ x hx => ?_
  rcases mem_append.mp hx with hx | hx
  · exact hb x hx
  · rw [mem_singleton.mp hx]
    intro hplaced
    simp only [schedule, scheduleOne, floorScore] at hplaced ⊢
    split_ifs at hplaced ⊢ with hfloor
    · norm_num [minSelectedScore]
    · exact fun hzero => hfloor ⟨hplaced.1, hzero⟩

/-- **The placement counts are the containers that are tracked**, in every sequence of
operations on a distributor that is the only user of its scheduler, has a local runtime, an
executor and a host manager, and has all its calls succeed – as long as everything but a
failover is begun while nothing is tracked, and no host was decided for 2⁶³ times. -/
theorem placements_eq_tracked (P : Platform) (sopts : Scheduler.Options)
    (probe : History → Snapshots) (list : History → List RemoteHost) (env : Env) (opts : Options)
    (hlocal : opts.localRuntime = true) (hexec : opts.executor = true)
    (hman : opts.hostManager = true) (ops : List Op) (h : String) (hne : h ≠ "")
    (hsucc : ∀ e ∈ (after (withScheduler P (newScheduler sopts) probe list env) opts ops).2,
      succeeded e = true)
    (hbegun : ∀ pre op post, ops = pre ++ op :: post → op = .checkAndFailover ∨
      (after (withScheduler P (newScheduler sopts) probe list env) opts pre).1.containers = [])
    (hword : planned h
      (after (withScheduler P (newScheduler sopts) probe list env) opts ops).2 < 2 ^ 63) :
    let run := after (withScheduler P (newScheduler sopts) probe list env) opts ops
    (schedulerAfter P (newScheduler sopts) probe list run.2).placements h = trackedOn run.1 h := by
  intro run
  have hcounted : trackedOn run.1 h = planned h run.2 ∧ run.1.opts = opts := by
    refine after_induction_of (I := fun d t => trackedOn d h = planned h t ∧ d.opts = opts)
      (K := fun d op => op = .checkAndFailover ∨ d.containers = [])
      (S := fun t e => succeeded e = true ∧
        e.outcome = withScheduler P (newScheduler sopts) probe list env t e.call)
      ⟨rfl, rfl⟩ ?_ _ ops ((Trace.holds_of_forall hsucc).and (after_answered _ opts ops)) hbegun
    rintro d t op ⟨hd, rfl⟩ hop
    refine wp_act_counted (fun _ _ hS => hS.1) ?_ hlocal hexec hman hne hd hop
    rintro t reqs o ⟨-, ho⟩
    exact ⟨_, ho, scheduleBatch_score_ne_zero reqs⟩
  rw [placements_eq_planned, hcounted.1]
  exact wrapInt64_of_mem (by omega) (by exact_mod_cast hword)

def onlyA : Snapshots :=
  GoMap.ofList [("A", some { cpuCores := 8, memoryTotalMB := 8192, diskTotalMB := 8192 })]

def everywhere : Options := { remoteOnly with localRuntime := true }

/-- `web` is distributed to `A`, and found there. -/
theorem placements_eq_tracked_web :
    let env := withScheduler Platform.reference (newScheduler {}) (fun _ => onlyA)
      (fun _ => [{ name := "A" }]) (scripted [] 1 (.ok {}))
    let run := after env everywhere [.distribute [web], .checkAndFailover]
    trackedOn run.1 "A" = 1 ∧ (schedulerAfter Platform.reference (newScheduler {}) (fun _ => onlyA)
      (fun _ => [{ name := "A" }]) run.2).placements "A" = trackedOn run.1 "A" := by
  refine ⟨by decide +kernel, placements_eq_tracked _ _ _ _ _ _ rfl rfl rfl _ "A" (by decide)
    (all_eq_true.mp (by decide +kernel)) ?_ (by decide +kernel)⟩
  intro pre op post hops
  rcases pre with - | ⟨op₁, - | ⟨op₂, - | ⟨op₃, pre⟩⟩⟩
  · exact .inr rfl
  · obtain ⟨-, rfl, -⟩ : _ ∧ _ ∧ _ := by simpa using hops
    exact .inl rfl
  · simp at hops
  · simp at hops

/-- **The counts do not follow the containers**: every call succeeds, `web` is placed on `A`
and taken down again, nothing is tracked, and `A` still counts one placement. -/
theorem placements_outlive_containers :
    let env := withScheduler Platform.reference (newScheduler {}) (fun _ => onlyA)
      (fun _ => [{ name := "A" }]) (scripted [] 1 (.ok {}))
    let run := after env remoteOnly [.distribute [web], .undistribute]
    let s := schedulerAfter Platform.reference (newScheduler {}) (fun _ => onlyA)
      (fun _ => [{ name := "A" }]) run.2
    live run.2 ("A", "web") = false ∧ trackedOn run.1 "A" = 0 ∧ s.placements "A" = 1 := by
  decide +kernel

end Containers.Distribution
