import Containers.Scheduler.Candidates

/-!
# A decision does not see the order of its inputs

The host list comes out of a map, and the snapshots are one: both arrive in whatever order the
iteration took. Every strategy but the rotation nevertheless decides the same way
(`schedule_order_independent`), because the orders it selects by are total – their keys (`scoreKey`
and its kin) determine the candidate, ties included – and because the value a candidate is compared
by is read from the snapshot under its name.

Over a batch the two runs keep working snapshots that are again permutations of each other, so all
the decisions of a batch agree (`scheduleBatch_order_independent`).
-/

namespace Containers.Scheduler

open Go Remote AList Function GoMap Platform

/-! ### The keys determine the candidate -/

theorem tieKey_injective (localName : String) : Injective (tieKey localName) := by
  intro a b h
  exact (Prod.mk.inj (toLex.injective h)).2

theorem scoreKey_injective (localName : String) : Injective (scoreKey localName) := by
  intro a b h
  obtain ⟨hscore, htie⟩ := Prod.mk.inj (toLex.injective h)
  exact HostScore.ext (tieKey_injective localName htie) (OrderDual.toDual.injective hscore)

theorem spreadKey_injective (localName : String) (existing : String → ℤ) :
    Injective (spreadKey localName existing) := by
  intro a b h
  exact tieKey_injective localName (Prod.mk.inj (toLex.injective h)).2

theorem affinityKey_injective : Injective affinityKey := by
  intro a b h
  obtain ⟨hscore, hname⟩ := Prod.mk.inj (toLex.injective h)
  exact HostScore.ext hname (OrderDual.toDual.injective hscore)

/-! ### The same candidates, in some order -/

section Perm

variable {P : Platform} {opts : Options} {snapshots snapshots' : Snapshots}
  {hosts hosts' : List RemoteHost} {req : ContainerRequirements} {value : HostResources → ℚ}

/-- **A candidate's value is the one its name's snapshot gives**, be it the local
host or a remote one. -/
theorem candidates_eq_of_name {a b : HostScore}
    (ha : a ∈ candidates P opts snapshots hosts req value)
    (hb : b ∈ candidates P opts snapshots hosts req value) (hname : a.name = b.name) : a = b := by
  have hvalue : ∀ c ∈ candidates P opts snapshots hosts req value,
      ∃ r, snapshots.lookup c.name = some (some r) ∧ c = ⟨c.name, value r⟩ := by
    intro c hc
    rcases mem_candidates.mp hc with ⟨r, hr, rfl⟩ | hc
    · exact ⟨r, (fitting_eq_some_iff.mp hr).1, rfl⟩
    · obtain ⟨h, -, r, hr, rfl⟩ := mem_remoteCandidates.mp hc
      exact ⟨r, (fitting_eq_some_iff.mp hr).1, rfl⟩
  obtain ⟨r, hr, ha⟩ := hvalue a ha
  obtain ⟨r', hr', hb⟩ := hvalue b hb
  rw [hname, hr', Option.some_inj, Option.some_inj] at hr
  rw [ha, hb, hname, hr]

theorem allNames_perm (hhosts : hosts.Perm hosts') :
    (allNames opts hosts req).Perm (allNames opts hosts' req) :=
  ((hhosts.filter _).map _).append_left _

theorem scheduleSpread_perm (hhosts : hosts.Perm hosts') (existing : String → ℤ) :
    scheduleSpread P opts hosts req existing = scheduleSpread P opts hosts' req existing := by
  rw [scheduleSpread, scheduleSpread, P.firstOf_perm (byKey_spreadLess opts.localHostName existing)
    (allNames_perm hhosts) fun a _ b _ h => spreadKey_injective _ _ h]

variable (hsnap : snapshots.entries.Perm snapshots'.entries)

include hsnap

theorem fitting_perm (name : String) (labels : Labels) :
    fitting P opts snapshots req name labels = fitting P opts snapshots' req name labels := by
  rw [fitting, fitting, perm_lookup hsnap]

theorem deductAt_perm (name : String) (req : ContainerRequirements) :
    (deductAt P snapshots name req).entries.Perm (deductAt P snapshots' name req).entries := by
  rw [deductAt, deductAt, perm_lookup hsnap]
  split
  · exact perm_insert hsnap
  · exact hsnap

theorem pickGPUAffinity_perm :
    pickGPUAffinity P opts snapshots req = pickGPUAffinity P opts snapshots' req := by
  have hrun : ∀ m : Snapshots, m.entries.foldl (gpuAffinityStep P opts req) ⟨"", -1⟩ =
      (runningBest affinityLess (gpuCandidates P opts m req)).getD ⟨"", -1⟩ :=
    fun m => foldl_gpuAffinityStep m.entries none
  have hbest : runningBest affinityLess (gpuCandidates P opts snapshots req) =
      runningBest affinityLess (gpuCandidates P opts snapshots' req) :=
    runningBest_perm byKey_affinityLess (hsnap.filterMap _)
      fun a _ b _ h => affinityKey_injective h
  simp only [pickGPUAffinity, hrun, hbest]

variable (hhosts : hosts.Perm hosts')

include hhosts

theorem remoteCandidates_perm :
    (remoteCandidates P opts snapshots hosts req value).Perm
      (remoteCandidates P opts snapshots' hosts' req value) := by
  simp only [remoteCandidates, fitting_perm hsnap]
  exact hhosts.filterMap _

theorem candidates_perm :
    (candidates P opts snapshots hosts req value).Perm
      (candidates P opts snapshots' hosts' req value) := by
  rw [candidates, fitting_perm hsnap]
  exact (remoteCandidates_perm hsnap hhosts).append_left _

theorem hostsPresentInSnapshots_perm :
    (hostsPresentInSnapshots snapshots hosts).Perm (hostsPresentInSnapshots snapshots' hosts') := by
  have hmem : ∀ name : String, name ∈ snapshots ↔ name ∈ snapshots' := fun name => by
    rw [← lookup_isSome, ← lookup_isSome, perm_lookup hsnap]
  simp only [hostsPresentInSnapshots, hmem]
  exact hhosts.filter _

/-! ### The same selection -/

theorem scheduleResourceAware_perm :
    scheduleResourceAware P opts snapshots hosts req =
      scheduleResourceAware P opts snapshots' hosts' req := by
  have hp := @candidates_perm P opts snapshots snapshots' hosts hosts' req
    (fun r => score P opts (some r) req) hsnap hhosts
  have hbest := P.firstOf_perm (byKey_scoreLess opts.localHostName) hp
    fun a _ b _ h => scoreKey_injective _ h
  have hlocal := @find?_perm _ _ _ (fun c => decide (c.name = opts.localHostName)) hp
    fun a ha b hb hta htb =>
      candidates_eq_of_name ha hb ((of_decide_eq_true hta).trans (of_decide_eq_true htb).symm)
  simp only [scheduleResourceAware, hbest, hlocal]

theorem scheduleBinPack_perm :
    scheduleBinPack P opts snapshots hosts req = scheduleBinPack P opts snapshots' hosts' req := by
  rw [scheduleBinPack, scheduleBinPack, P.firstOf_perm (byKey_scoreLess opts.localHostName)
    (candidates_perm hsnap hhosts) fun a _ b _ h => scoreKey_injective _ h]

theorem scheduleAffinity_perm :
    scheduleAffinity P opts snapshots hosts req =
      scheduleAffinity P opts snapshots' hosts' req := by
  rw [scheduleAffinity, scheduleAffinity, runningBest_perm byKey_affinityLess
    (remoteCandidates_perm hsnap hhosts) fun a _ b _ h => affinityKey_injective h]

theorem scheduleOne_perm {s : DefaultScheduler} (hs : s.opts.strategy ≠ .roundRobin)
    (req : ContainerRequirements) :
    scheduleOne P s snapshots hosts req = scheduleOne P s snapshots' hosts' req := by
  have hdecision :
      strategyDecision P s snapshots hosts req = strategyDecision P s snapshots' hosts' req := by
    rw [strategyDecision, strategyDecision]
    cases hstrategy : s.opts.strategy with
    | resourceAware => simp only [scheduleResourceAware_perm hsnap hhosts]
    | roundRobin => exact absurd hstrategy hs
    | affinity => simp only [scheduleAffinity_perm hsnap hhosts]
    | spread => simp only [scheduleSpread_perm (hostsPresentInSnapshots_perm hsnap hhosts)]
    | binPack => simp only [scheduleBinPack_perm hsnap hhosts]
    | gpuAffinity => simp only [pickGPUAffinity_perm hsnap, index_perm hsnap]
  rw [scheduleOne, scheduleOne, hdecision]

end Perm

/-! ### Single decisions and batches -/

/-- **A decision does not depend on enumeration order**: under every strategy but
`round_robin`, two orders of the same host list and two iteration orders of the same
snapshot map give the same decision – host, score and reason. -/
theorem schedule_order_independent (P : Platform) (s : DefaultScheduler)
    (hs : s.opts.strategy ≠ .roundRobin) {snapshots snapshots' : Snapshots}
    (hsnap : snapshots.entries.Perm snapshots'.entries) {hosts hosts' : List RemoteHost}
    (hhosts : hosts.Perm hosts') (req : ContainerRequirements) :
    (schedule P s snapshots hosts req).1 = (schedule P s snapshots' hosts' req).1 := by
  simp only [schedule, scheduleOne_perm hsnap hhosts hs req]

def fourIdle : HostResources :=
  { cpuCores := 4, memoryTotalMB := 8192, diskTotalMB := 100000 }

/-- Two idle hosts tie, and in either order the smaller name wins. -/
theorem schedule_order_independent_tie :
    (schedule Platform.reference (newScheduler {})
      (GoMap.ofList [("h1", some fourIdle), ("h2", some fourIdle)])
      [{ name := "h1" }, { name := "h2" }] {}).1.hostName = "h1" ∧
    (schedule Platform.reference (newScheduler {})
      (GoMap.ofList [("h2", some fourIdle), ("h1", some fourIdle)])
      [{ name := "h2" }, { name := "h1" }] {}).1.hostName = "h1" := by
  have hname : (schedule reference (newScheduler {})
      (ofList [("h1", some fourIdle), ("h2", some fourIdle)])
      [{ name := "h1" }, { name := "h2" }] {}).1.hostName = "h1" := by decide +kernel
  have hsnap : (ofList [("h1", some fourIdle), ("h2", some fourIdle)]).entries.Perm
      (ofList [("h2", some fourIdle), ("h1", some fourIdle)]).entries :=
    List.Perm.swap _ _ _
  refine ⟨hname, ?_⟩
  rw [← schedule_order_independent reference (newScheduler {}) (by decide) hsnap
    (List.Perm.swap _ _ _)]
  exact hname

/-- **The decisions of a batch do not depend on enumeration order.** -/
theorem scheduleBatch_order_independent (P : Platform) (s : DefaultScheduler)
    (hs : s.opts.strategy ≠ .roundRobin) {snapshots snapshots' : Snapshots}
    (hsnap : snapshots.entries.Perm snapshots'.entries) {hosts hosts' : List RemoteHost}
    (hhosts : hosts.Perm hosts') (reqs : List ContainerRequirements) :
    (scheduleBatch P s snapshots hosts reqs).1.decisions =
      (scheduleBatch P s snapshots' hosts' reqs).1.decisions := by
  -- the two loops run in step, over working snapshots that stay permutations
  have hrun : ∀ b b' : BatchState, b.sched = b'.sched → b.sched.opts.strategy ≠ .roundRobin →
      b.working.entries.Perm b'.working.entries → b.decisions = b'.decisions →
      (reqs.foldl (batchStep P hosts) b).decisions =
        (reqs.foldl (batchStep P hosts') b').decisions := by
    induction reqs with
    | nil => exact fun b b' _ _ _ h => h
    | cons req reqs ih =>
      intro b b' hsched hb hworking hdecisions
      have hone := scheduleOne_perm (P := P) hworking hhosts hb req
      refine ih _ _ ?_ ?_ ?_ ?_
      · simp only [batchStep, schedule, ← hsched, hone]
      · rwa [batchStep_opts]
      · simp only [batchStep, schedule, ← hsched, hone]
        split
        · exact deductAt_perm hworking _ req
        · exact hworking
      · simp only [batchStep, schedule, ← hsched, hone, hdecisions]
  rw [scheduleBatch_decisions, scheduleBatch_decisions]
  exact hrun _ _ rfl hs hsnap rfl

/-- Two hosts that tie, in either order. -/
theorem scheduleBatch_order_independent_tie :
    (scheduleBatch reference (newScheduler {}) (ofList [("a", some fourIdle), ("b", some fourIdle)])
      [{ name := "a" }, { name := "b" }] [{}, {}]).1.decisions =
    (scheduleBatch reference (newScheduler {}) (ofList [("b", some fourIdle), ("a", some fourIdle)])
      [{ name := "b" }, { name := "a" }] [{}, {}]).1.decisions :=
  scheduleBatch_order_independent _ _ (by decide) (.swap ..) (.swap ..) _

end Containers.Scheduler
