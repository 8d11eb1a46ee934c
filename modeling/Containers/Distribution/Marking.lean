import Containers.Distribution.Placements
import Containers.Lib.Sections
import Containers.Scheduler.Candidates

/-!
# What a failover marks

The calls on a distributor section by section. `CheckAndFailover` copies what is tracked in a first
section, finds the offline hosts while it holds nothing, and marks in a second section, by name,
what is tracked by then. In between a `Distribute` or a `Rebalance` may publish another placement,
and an `Undistribute` may forget everything.

* `tracking` – the calls, over the list that they share. The commands they issue between their
  sections change nothing that is tracked, and the deployments of a `Distribute` are taken together
  with the section that publishes what has come of them.
* `Calm` – placements are published under distinct names, and not between the two sections of a
  failover.
* `failover_marks_offline` – in calm runs a failover changes the state only of what is on a host
  that it found offline.
* `failover_avoids_offline` – a failover sends nothing back to a host that it found offline, if no
  such host passes the test of the scheduler's strategy. The two look at the hosts one after the
  other.
-/

namespace Containers.Distribution

open Go Remote Scheduler Sections DefaultDistributor Prog List ThreadSystem

/-! ### The calls, section by section -/

namespace Tracking

/-- Where a call is: what it does next. -/
inductive Frame where
  /-- A failover that has its copy and looks for offline hosts. -/
  | scan (copy : List DistributedContainer)
  /-- A failover that has found offline hosts and is about to mark. -/
  | mark (offline affected : List String)
  /-- A `Distribute`, also that of a `Rebalance`, about to publish. -/
  | distribute (reqs : List ContainerRequirements)
  | undistribute

def Frame.offline : Frame → List String
  | .mark offline _ => offline
  | _ => []

def Frame.failsOver : Frame → Bool
  | .scan _ | .mark _ _ => true
  | _ => false

def Frame.publishes : Frame → Bool
  | .distribute _ => true
  | _ => false

/-- What the collaborators answer, and what they were asked before. -/
structure Answers where
  env : Env
  past : History := []

/-- Where a call begins: what a `Rebalance` and a failover read, they read at once. -/
def enter (d : DefaultDistributor) : Op → Frame
  | .distribute reqs => .distribute reqs
  | .rebalance => .distribute (d.containers.map (·.requirement))
  | .undistribute => .undistribute
  | .checkAndFailover => .scan d.containers

def step (d : DefaultDistributor) (o : Answers) : Frame → Option (DefaultDistributor × List Frame)
  | .scan copy =>
    let offline := ((copy.foldlM findOffline []).run o.env o.past).1
    if !d.opts.hostManager || !d.opts.executor || offline = [] then some (d, [])
    else some (d,
      [.mark offline ((copy.filter (·.hostName ∈ offline)).map (·.requirement.name))])
  | .mark _ affected => some ({ d with
      containers := d.containers.map (markMigrating affected) }, [])
  | .distribute reqs => some (((d.distribute reqs).run o.env o.past).1.1, [])
  | .undistribute => some ({ d with containers := [] }, [])

end Tracking

open Tracking

/-- **The calls on a distributor**, in any interleaving of their sections. -/
def tracking : Sections DefaultDistributor Frame Answers Op where
  call := enter
  step := step

/-- **Placements are published under distinct names, and not while a failover is between its
two sections.** -/
abbrev Calm : Condition DefaultDistributor Frame Answers := fun d F f o =>
  f.publishes → (∀ g ∈ F, ¬g.failsOver) ∧
    ∀ r ∈ step d o f, (r.1.containers.map (·.requirement.name)).Nodup

/-! ### What a copy still says of what is tracked -/

namespace Tracking

variable {d d' : DefaultDistributor} {f : Frame}

/-- What is tracked under a name that a failover has copied, is where the copy has it. -/
def Frame.Ok (d : DefaultDistributor) : Frame → Prop
  | .scan copy => ∀ dc ∈ d.containers, ∀ old ∈ copy,
      old.requirement.name = dc.requirement.name → old.hostName = dc.hostName
  | .mark offline affected => ∀ dc ∈ d.containers,
      dc.requirement.name ∈ affected → dc.hostName ∈ offline
  | _ => True

theorem ok_of_subset (hsub : ∀ dc' ∈ d'.containers, ∃ dc ∈ d.containers,
    dc.requirement = dc'.requirement ∧ dc.hostName = dc'.hostName) (h : f.Ok d) : f.Ok d' := by
  cases f with
  | scan copy =>
    intro dc' hdc' old hold hname
    obtain ⟨dc, hdc, hreq, hhost⟩ := hsub dc' hdc'
    exact (h dc hdc old hold (hreq ▸ hname)).trans hhost
  | mark offline affected =>
    intro dc' hdc' hname
    obtain ⟨dc, hdc, hreq, hhost⟩ := hsub dc' hdc'
    exact hhost ▸ h dc hdc (hreq ▸ hname)
  | _ => trivial

theorem ok_of_not_failsOver (h : ¬f.failsOver) : f.Ok d := by
  cases f with
  | scan | mark => exact absurd rfl h
  | _ => trivial

theorem ok_scan (h : (d.containers.map (·.requirement.name)).Nodup) :
    (Frame.scan d.containers).Ok d :=
  fun _ hdc _ hold hname => congrArg _ (inj_on_of_nodup_map h hold hdc hname)

theorem ok_mark {copy : List DistributedContainer} {offline : List String}
    (h : (Frame.scan copy).Ok d) : (Frame.mark offline
      ((copy.filter (·.hostName ∈ offline)).map (·.requirement.name))).Ok d := by
  intro dc hdc hname
  obtain ⟨old, hold, hsame⟩ := mem_map.mp hname
  obtain ⟨hcopied, hoffline⟩ := mem_filter.mp hold
  exact h dc hdc old hcopied hsame ▸ of_decide_eq_true hoffline

theorem markMigrating_requirement (affected : List String) (dc : DistributedContainer) :
    (markMigrating affected dc).requirement = dc.requirement := by
  rw [markMigrating]
  split_ifs <;> rfl

/-- **In calm runs what a failover has copied stays right.** -/
theorem reached_ok {opts : Options} {s : State DefaultDistributor Frame}
    (h : tracking.Reached Calm ⟨opts, []⟩ s) :
    (s.memory.containers.map (·.requirement.name)).Nodup ∧ ∀ f ∈ s.frames, f.Ok s.memory := by
  refine Reached.induction
    (I := fun d F => (d.containers.map (·.requirement.name)).Nodup ∧ ∀ f ∈ F, f.Ok d)
    ⟨nodup_nil, by simp⟩ ?_ ?_ h
  · intro d F c ⟨hnames, hF⟩
    refine ⟨hnames, forall_mem_call hF ?_⟩
    cases c with
    | checkAndFailover => exact ok_scan hnames
    | _ => trivial
  · intro d A f B o d' made ⟨hnames, hF⟩ hcalm hstep
    have hf := hF f mem_subject
    have hrest : ∀ g ∈ A ++ B, g.Ok d := forall_mem_others hF
    cases f with
    | scan copy =>
      simp only [tracking, step] at hstep
      split_ifs at hstep <;> cases hstep
      · exact ⟨hnames, forall_mem_made hrest (by simp)⟩
      · exact ⟨hnames,
          forall_mem_made hrest (forall_mem_singleton.mpr (ok_mark hf))⟩
    | mark offline affected =>
      cases hstep
      refine ⟨?_, forall_mem_made (fun g hg => ok_of_subset ?_ (hrest g hg)) (by simp)⟩
      · simpa [Function.comp_def, markMigrating_requirement] using hnames
      · intro dc' hdc'
        obtain ⟨dc, hdc, rfl⟩ := mem_map.mp hdc'
        exact ⟨dc, hdc, (markMigrating_requirement _ _).symm, (markMigrating_hostName _ _).symm⟩
    | distribute reqs =>
      obtain ⟨hnone, hpublished⟩ := hcalm rfl
      exact ⟨hpublished _ hstep, forall_mem_made (fun g hg =>
        ok_of_not_failsOver (hnone g (mem_of_mem_rest hg))) (by cases hstep; simp)⟩
    | undistribute =>
      cases hstep
      exact ⟨nodup_nil, forall_mem_made
        (fun g hg => ok_of_subset (by simp) (hrest g hg)) (by simp)⟩

end Tracking

/-- **A failover marks only what is on a host that it found offline**: in calm runs, whatever
section of a `CheckAndFailover` comes next, it changes the state of no other entry. -/
theorem failover_marks_offline {opts : Options}
    {s : ThreadSystem.State DefaultDistributor Frame} (h : tracking.Reached Calm ⟨opts, []⟩ s)
    {f : Frame} (hf : f ∈ s.frames) (hfails : f.failsOver) {o : Answers} {d' : DefaultDistributor}
    {made : List Frame} (hstep : tracking.step s.memory o f = some (d', made)) :
    List.Forall₂ (fun dc dc' => dc'.state ≠ dc.state → dc.hostName ∈ f.offline)
      s.memory.containers d'.containers := by
  have hok := (reached_ok h).2 f hf
  cases f with
  | scan copy =>
    simp only [tracking, Tracking.step] at hstep
    split_ifs at hstep <;> cases hstep <;>
      exact forall₂_same.mpr fun _ _ => absurd rfl
  | mark offline affected =>
    cases hstep
    refine forall₂_map_right_iff.mpr (forall₂_same.mpr fun dc hdc hne => ?_)
    refine hok dc hdc (by_contra fun hname => hne ?_)
    rw [markMigrating, if_neg fun hmarked => hname hmarked.1]
  | distribute | undistribute => cases hfails

/-- The decisions are deployed, and `A` does not answer. -/
def offlineA (decisions : List PlacementDecision) : Answers where
  env t c := match c with
    | .isReachable host => host.name ≠ "A"
    | c => scripted [decisions] 2 (.ok {}) t c

/-- A failover that found `A` offline changes an entry on a host with its next section. -/
abbrev MarksOn (hostName : String) (s : ThreadSystem.State DefaultDistributor Frame) : Prop :=
  ∃ f ∈ s.frames, f.failsOver ∧ f.offline = ["A"] ∧
    ∃ r ∈ tracking.step s.memory (offlineA []) f, ∃ p ∈ s.memory.containers.zip r.1.containers,
      p.1.hostName = hostName ∧ p.1.state = .running ∧ p.2.state = .migrating

/-- `web` runs on `A`, which goes offline, and is marked. -/
theorem failover_marks_offline_web : ∃ s, tracking.Reached Calm ⟨remoteOnly, []⟩ s ∧
    MarksOn "A" s ∧ ∀ f ∈ s.frames, f.failsOver → ∀ o d' made,
      tracking.step s.memory o f = some (d', made) →
      List.Forall₂ (fun dc dc' => dc'.state ≠ dc.state → dc.hostName ∈ f.offline)
        s.memory.containers d'.containers := by
  obtain ⟨s, hs, hmarks⟩ : ∃ s, tracking.Reached Calm ⟨remoteOnly, []⟩ s ∧ MarksOn "A" s :=
    Reached.of_run [.call (.distribute [web]), .step 0 (0, offlineA [webOn "A"]),
      .call .checkAndFailover, .step 1 (0, offlineA [])] (by decide +kernel)
  exact ⟨s, hs, hmarks, fun _ hf hfails _ _ _ hstep =>
    failover_marks_offline hs hf hfails hstep⟩

/-- **A failover marks what runs on a healthy host.** `web` runs on `A` and on `B`, `A` goes
offline, and both are marked, since the marking goes by name. And where `web` runs on `A` only,
a `Distribute` that places it on `B` while the failover waits for `A` has the new one marked. -/
theorem failover_marks_healthy :
    (∃ s, tracking.Reached anyhow ⟨remoteOnly, []⟩ s ∧
      s.memory.containers.map (·.hostName) = ["A", "B"] ∧ MarksOn "B" s) ∧
    ∃ s, tracking.Reached anyhow ⟨remoteOnly, []⟩ s ∧
      s.memory.containers.map (·.hostName) = ["B"] ∧ MarksOn "B" s :=
  ⟨Reached.of_run [.call (.distribute [web, web]),
      .step 0 (0, offlineA [webOn "A", webOn "B"]), .call .checkAndFailover,
      .step 1 (0, offlineA [])] (by decide +kernel),
    Reached.of_run [.call (.distribute [web]), .step 0 (0, offlineA [webOn "A"]),
      .call .checkAndFailover, .step 1 (0, offlineA []), .call (.distribute [web]),
      .step 2 (0, offlineA [webOn "B"])] (by decide +kernel)⟩

/-! ### Where a failover sends containers -/

section Failover

variable (P : Platform) (s₀ : DefaultScheduler) (probe : History → Snapshots)
  (list : History → List RemoteHost) (env : Env) (d : DefaultDistributor) (t : History)

/-- What a failover knows when it has looked at all tracked hosts: those that it found offline, and
what was asked so far. -/
abbrev scanned : List String × History := (d.containers.foldlM findOffline []).run env t

variable {env d t} in
theorem ne_empty_of_scanned {h : String} (hh : h ∈ (scanned env d t).1) : h ≠ "" := by
  have hwp : (d.containers.foldlM findOffline []).wp (fun _ _ => True)
      (fun offline _ => ∀ h ∈ offline, h ≠ "") t := by
    refine wp_foldlM (fun _ offline _ => ∀ h ∈ offline, h ≠ "") (by simp) ?_
    intro _ dc _ offline t _ hoffline
    rw [findOffline]
    split_ifs with hskip
    · exact hoffline
    · have hadd : ∀ h ∈ dc.hostName :: offline, h ≠ "" :=
        forall_mem_cons.mpr ⟨fun hempty => hskip (.inl hempty), hoffline⟩
      refine wp_seam fun found _ => ?_
      cases found with
      | none => exact hadd
      | some host =>
        refine wp_seam fun reachable _ => ?_
        cases reachable with
        | true => exact hoffline
        | false => exact wp_seam fun _ _ => hadd
  exact hwp.of_run_answered env (fun _ _ => trivial) h hh

theorem newHost_of_fillNewHosts {actions : List FailoverAction} {decisions : List PlacementDecision}
    (hactions : ∀ a ∈ actions, a.newHost = "") :
    ∀ a ∈ fillNewHosts actions decisions, a.newHost = "" ∨
      ∃ x ∈ decisions, a.newHost = x.hostName := by
  intro a ha
  obtain ⟨i, hi, rfl⟩ := mem_mapIdx.mp ha
  split
  case h_1 x hx => exact .inr ⟨x, mem_of_getElem? hx, rfl⟩
  · exact .inl (hactions _ (getElem_mem _))

/-- The requirements of the containers on hosts that were found offline. -/
abbrev strandedReqs : List ContainerRequirements :=
  (d.containers.filter (·.hostName ∈ (scanned env d t).1)).map (·.requirement)

/-- A host passes the test of the strategy when the scheduler comes to the `i`-th of these. -/
def Considered (i : ℕ) (h : String) : Prop :=
  let env := withScheduler P s₀ probe list env
  let t₁ := (scanned env d t).2
  ∃ req, (strandedReqs env d t)[i]? = some req ∧
    Candidate P s₀.opts (batchAt P (probe t₁) (list t₁) (schedulerAfter P s₀ probe list t₁)
      (strandedReqs env d t) i).working (list t₁) req h

/-- **A failover sends nothing to a host that it found offline**, if no such host is considered for
a container; and, where such a host is considered, it is sent back if no other one is. -/
theorem failover_avoids_offline :
    ((∀ i, ∀ h ∈ (scanned (withScheduler P s₀ probe list env) d t).1,
        ¬Considered P s₀ probe list env d t i h) →
      ∀ a ∈ (d.checkAndFailover.run (withScheduler P s₀ probe list env) t).1.2.1,
        a.newHost ∉ (scanned (withScheduler P s₀ probe list env) d t).1) ∧
    (d.opts.hostManager = true ∧ d.opts.executor = true ∧ d.opts.scheduler = true →
      ∀ i, ∀ h ∈ (scanned (withScheduler P s₀ probe list env) d t).1,
        Considered P s₀ probe list env d t i h →
        (∀ x, Considered P s₀ probe list env d t i x → x = h) →
        ∃ a ∈ (d.checkAndFailover.run (withScheduler P s₀ probe list env) t).1.2.1,
          a.newHost = h) := by
  set env' := withScheduler P s₀ probe list env with henv
  set t₁ := (scanned env' d t).2 with ht₁
  set decisions := (scheduleBatch P (schedulerAfter P s₀ probe list t₁) (probe t₁) (list t₁)
    (strandedReqs env' d t)).1.decisions with hdecisions
  have hempty : "" ∉ (scanned env' d t).1 := fun h => ne_empty_of_scanned h rfl
  have hstranded : ∀ l : List DistributedContainer, ∀ a ∈ l.map (fun dc =>
      ({ containerName := dc.requirement.name, originalHost := dc.hostName } : FailoverAction)),
      a.newHost = "" := by simp
  have hopts : ∀ i, (batchAt P (probe t₁) (list t₁) (schedulerAfter P s₀ probe list t₁)
      (strandedReqs env' d t) i).sched.opts = s₀.opts := fun i => by
    rw [batchAt_opts, schedulerAfter_opts]
  rw [checkAndFailover]
  constructor
  · intro hnone
    split_ifs
    · exact forall_mem_nil _
    rw [run_bind]
    split_ifs
    · exact forall_mem_nil _
    dsimp only
    split_ifs
    · exact fun a ha => hstranded _ a ha ▸ hempty
    · intro a ha hoffline
      rcases newHost_of_fillNewHosts (hstranded _) a ha with hnew | ⟨x, hx, hhost⟩
      · exact hempty (hnew ▸ hoffline)
      obtain ⟨i, hi⟩ := mem_iff_getElem?.mp (show x ∈ decisions from hx)
      rw [hdecisions, scheduleBatch_getElem?] at hi
      obtain ⟨req, hreq, rfl⟩ := Option.map_eq_some_iff.mp hi
      have hname : (schedule P _ _ (list t₁) req).1.hostName ≠ "" := fun h =>
        hempty (h ▸ hhost ▸ hoffline)
      refine hnone i _ (hhost ▸ hoffline) ⟨req, hreq, ?_⟩
      rw [← hopts i]
      exact candidate_of_scheduleOne hname
  · rintro ⟨hmanager, hexecutor, hscheduler⟩ i h hoffline ⟨req, hreq, hcandidate⟩ hsole
    have hselected := scheduleBatch_getElem? P (probe t₁) (list t₁)
      (schedulerAfter P s₀ probe list t₁) (strandedReqs env' d t) i
    rw [hreq, Option.map_some] at hselected
    have hhost := hostName_of_sole_candidate (hopts i ▸ hcandidate) fun x hx =>
      hsole x ⟨req, hreq, hopts i ▸ hx⟩
    -- the scheduler is asked, and its decisions are filled in one by one
    obtain ⟨dc, hdc, -⟩ := Option.map_eq_some_iff.mp (getElem?_map ▸ hreq)
    have hasked : (d.containers.filter (·.hostName ∈ (scanned env' d t).1)).isEmpty = false :=
      isEmpty_eq_false_iff_exists_mem.mpr ⟨dc, mem_of_getElem? hdc⟩
    rw [if_neg (by simp [hmanager, hexecutor]), run_bind, if_neg (ne_nil_of_mem hoffline)]
    dsimp only
    rw [if_neg (by rw [hscheduler, hasked]; decide)]
    refine ⟨_, mem_mapIdx.mpr ⟨i, ?_, rfl⟩, ?_⟩
    · rw [length_map]
      exact (List.getElem?_eq_some_iff.mp hdc).1
    · rw [show (scheduleBatch P _ _ _ _).1.decisions[i]? = _ from hselected]
      exact hhost

end Failover

/-- `A` does not answer, and the scheduler probes these hosts. -/
abbrev failingOver (snapshots : Snapshots) : Env :=
  withScheduler Platform.reference (newScheduler {}) (fun _ => snapshots)
    (fun _ => [{ name := "A" }, { name := "B" }]) (offlineA []).env

def oneCore : ContainerRequirements := { name := "db", cpuCores := 1 }

/-- A distributor that tracks it on `A`. -/
def dbTracked : DefaultDistributor :=
  ⟨remoteOnly, [{ requirement := oneCore, hostName := "A", state := .running }]⟩

abbrev withCores (cores : ℤ) : HostResources :=
  { cpuCores := cores, memoryTotalMB := 8192, diskTotalMB := 8192 }

/-- `db` goes from `A` to `B`, also where the scheduler reaches `A` and finds it full. -/
theorem failover_avoids_offline_db :
    let env := failingOver (GoMap.ofList
      [("A", some { withCores 8 with cpuPercent := 100 }), ("B", some (withCores 8))])
    (scanned env dbTracked []).1 = ["A"] ∧
      (dbTracked.checkAndFailover.run env []).1.2.1.map (·.newHost) = ["B"] ∧
      ∀ a ∈ (dbTracked.checkAndFailover.run env []).1.2.1,
        a.newHost ∉ (scanned env dbTracked []).1 := by
  intro env
  have hscanned : (scanned env dbTracked []).1 = ["A"] := by decide +kernel
  refine ⟨hscanned, by decide +kernel, (failover_avoids_offline _ _ _ _ _ _ _).1 ?_⟩
  rintro i h hh ⟨req, hreq, hcandidate⟩
  have hreqs : strandedReqs env dbTracked [] = [oneCore] := by
    rw [strandedReqs, hscanned]
    rfl
  have hreq' := hreqs ▸ hreq
  obtain ⟨rfl, rfl⟩ : i = 0 ∧ oneCore = req := by
    rcases i with _ | i
    · exact ⟨rfl, Option.some.inj hreq'⟩
    · simp at hreq'
  cases mem_singleton.mp (hscanned ▸ hh)
  rw [← mem_candidateNames] at hcandidate
  revert hcandidate
  decide +kernel

/-- **A failover can send a container back**: `A` does not answer, and when the scheduler probes it,
it does. -/
theorem failover_returns_to_offline :
    (scanned (failingOver (GoMap.ofList [("A", some (withCores 8))])) dbTracked []).1 = ["A"] ∧
      (dbTracked.checkAndFailover.run (failingOver (GoMap.ofList [("A", some (withCores 8))]))
        []).1.2.1.map (·.newHost) = ["A"] := by
  decide +kernel

end Containers.Distribution
