import Containers.Boot.Phases

/-!
# What a boot can be held to

Three promises of `BootAll`, against what it does for every set of endpoints, every answer of its
collaborators and every order of its walks.

* *An error only when a required service fails.* The phases of the distribution and of the health
  checks look at `Required` before they count a failure. The compose phase does not: an Up that
  fails counts for every endpoint of its group, and one optional endpoint is enough to fail the boot
  (`bootAll_error_iff`).
* *Counters that agree with the results.* Where the health checks turn a result into a failure, the
  endpoint is taken out of the counter that it was in. The compose phase does not do that for an
  endpoint that was discovered (`summary_agrees_iff`).
* *Discovered services are not started.* The compose groups are made of all enabled endpoints,
  discovered and remote ones included, so there is an Up for a file that nobody needs
  (`bootAll_ups_needed_iff`).
-/

namespace Containers.Boot

open Go BootManager AList GoMap

variable {r : Report} {t : History}

theorem finished_of_run {bm : BootManager} {env : Surroundings}
    (hrun : bm.bootAll.run env [] = (r, t)) : Finished bm r t := by
  have hwp : bm.bootAll.wp (fun _ _ => True) (Finished bm) [] := wp_bootAll
  have h := hwp.of_run_answered env fun _ _ => trivial
  rwa [hrun] at h

/-! ### The error -/

def BootManager.Report.Ends (r : Report) (name : String) (st : Status) : Prop :=
  (r.summary.results.lookup name).map (·.status) = some st

/-- The endpoint is required, and something it depends on failed: the Up of its compose group, its
deployment, or its health check. -/
def BootManager.LetDown (bm : BootManager) (t : History) (name : String) : Prop :=
  (bm.endpoint name).required = true ∧
    (bm.groupFailed t name = true ∨ told (.missed name) t = true ∨ told (.unhealthy name) t = true)

section Error

variable {bm : BootManager} {name : String}

theorem mem_of_required (h : (bm.endpoint name).required = true) : name ∈ bm.endpoints := by
  by_contra hmem
  rw [endpoint, index, lookup_eq_none.mpr hmem] at h
  cases h

theorem composing_eq_failed_iff :
    bm.composing t name = some .failed ↔ bm.groupFailed t name = true := by
  unfold composing discovering
  split_ifs <;> simp_all

theorem distributing_eq_failed_iff (h : Shortfall bm t) :
    bm.distributing t name = some .failed ↔
      bm.groupFailed t name = true ∨ told (.missed name) t = true := by
  rw [distributing, ← composing_eq_failed_iff, Option.or_eq_some_iff]
  refine or_congr_right ⟨fun hfailed => ?_, fun hmissed => ?_⟩
  · obtain ⟨-, hfailed⟩ := hfailed
    split_ifs at hfailed with hdeployed hmissed
    · simp at hfailed
    · exact hmissed
  · obtain ⟨-, hnone, hdeployed⟩ := h name hmissed
    refine ⟨hnone, ?_⟩
    rw [hdeployed, hmissed]
    rfl

/-- **A required endpoint ends as failed** if and only if it was let down. -/
theorem ending_eq_failed_iff (h : Shortfall bm t) (hrequired : (bm.endpoint name).required = true) :
    bm.ending t name = some .failed ↔ bm.LetDown t name := by
  have hleaving : bm.leaving t name = some .failed ↔ bm.distributing t name = some .failed := by
    rw [leaving, Option.or_eq_some_iff]
    refine or_iff_left ?_
    rintro ⟨-, hremote⟩
    simp at hremote
  rw [LetDown, ending, hrequired, Bool.true_and]
  by_cases hunhealthy : told (.unhealthy name) t = true
  · simp [hunhealthy]
  · rw [if_neg hunhealthy, hleaving, distributing_eq_failed_iff h]
    simp [hunhealthy]

/-- **`BootAll` fails for a reason that it names** – a cancelled context, or a required endpoint
that ended as failed – if and only if it was cancelled, or no Up failed, or some required endpoint
was let down as well. -/
theorem bootAll_error_iff (bm : BootManager) (env : Surroundings)
    (hrun : bm.bootAll.run env [] = (r, t)) :
    (r.err ≠ none →
      Cancelled t ∨ ∃ name, (bm.endpoint name).required = true ∧ r.Ends name .failed) ↔
      Cancelled t ∨ (∀ name, bm.groupFailed t name = false) ∨ ∃ name, bm.LetDown t name := by
  rcases (finished_of_run hrun).report with ⟨hcancelled, -⟩ | ⟨hlive, hshort, b, hb, hsummary, herr⟩
  · exact iff_of_true (fun _ => .inl hcancelled) (.inl hcancelled)
  · have hends : ∀ name, (bm.endpoint name).required = true →
        (b.status name = some .failed ↔ bm.LetDown t name) := by
      intro name hrequired
      rw [hb.tallied.status, among, if_pos (mem_of_required hrequired),
        ending_eq_failed_iff hshort hrequired]
    have hreport : (∃ name, (bm.endpoint name).required = true ∧ r.Ends name .failed) ↔
        ∃ name, bm.LetDown t name := by
      refine exists_congr fun name => ⟨?_, fun hdown => ⟨hdown.1, ?_⟩⟩
      · rintro ⟨hrequired, hfailed⟩
        rw [Report.Ends, hsummary] at hfailed
        exact (hends name hrequired).mp hfailed
      · rw [Report.Ends, hsummary]
        exact (hends name hdown.1).mpr hdown
    have hblame : r.err ≠ none ↔
        (∃ name, bm.groupFailed t name = true) ∨ ∃ name, bm.LetDown t name := by
      rw [herr, hb.blamed.pos_iff, exists_or]
      refine or_congr_right (exists_congr fun name => ⟨?_, fun hdown =>
        ⟨hdown.1, (hends name hdown.1).mpr hdown⟩⟩)
      rintro ⟨hrequired, hfailed⟩
      exact (hends name hrequired).mp hfailed
    have hnone : (∀ name, bm.groupFailed t name = false) ↔
        ¬∃ name, bm.groupFailed t name = true := by
      simp
    rw [hreport, hblame, hnone]
    constructor
    · intro h
      by_cases hbroken : ∃ name, bm.groupFailed t name = true
      · exact .inr (.inr ((h (.inl hbroken)).resolve_left hlive))
      · exact .inr (.inl hbroken)
    · rintro (hcancelled | hbroken | hdown) hblamed
      · exact .inl hcancelled
      · exact .inr (hblamed.resolve_left hbroken)
      · exact .inr hdown

end Error

/-- Collaborators that find some endpoints and cannot bring up some compose files; all else goes
well. -/
def answering (found broken : List String) : Surroundings
  | _, .range keys => ⟨keys, .refl keys⟩
  | _, .ctxErr _ => none
  | _, .discover target => .ok (target.name ∈ found)
  | _, .up project => if project.file ∈ broken then some "pull access denied" else none
  | _, .down _ => none
  | _, .undistribute => none
  | _, .distribute names => (names.length, none)
  | _, .checkAll targets => ⟨targets.map fun _ => { healthy := true }, by simp⟩

def cache (required : Bool) : ServiceEndpoint where
  enabled := true
  required := required
  composeFile := "cache.yml"
  discoveryEnabled := true

def cacheOnly (required : Bool) : BootManager where
  endpoints := GoMap.ofList [("cache", cache required)]
  orchestrator := true
  discoverer := true

theorem mem_cacheOnly {required : Bool} {name : String} :
    name ∈ (cacheOnly required).endpoints ↔ name = "cache" := by
  have hkeys : (cacheOnly required).endpoints.keys = ["cache"] := rfl
  rw [mem_keys, hkeys, List.mem_singleton]

/-- An optional cache whose Up fails, and nothing else: the boot returns an error. -/
theorem bootAll_blames_optional :
    ¬(((cacheOnly false).bootAll.run (answering [] ["cache.yml"]) []).1.err ≠ none →
      Cancelled ((cacheOnly false).bootAll.run (answering [] ["cache.yml"]) []).2 ∨
        ∃ name, ((cacheOnly false).endpoint name).required = true ∧
          ((cacheOnly false).bootAll.run (answering [] ["cache.yml"]) []).1.Ends name .failed) := by
  intro h
  rcases h (by decide +kernel) with ⟨phase, hphase⟩ | ⟨name, hrequired, -⟩
  · revert hphase
    rcases phase <;> decide +kernel
  · obtain rfl := mem_cacheOnly.mp (mem_of_required hrequired)
    revert hrequired
    decide +kernel

/-- A required cache whose Up fails: the boot fails for it. -/
theorem bootAll_blames_required :
    ((cacheOnly true).bootAll.run (answering [] ["cache.yml"]) []).1.err ≠ none ∧
      (Cancelled ((cacheOnly true).bootAll.run (answering [] ["cache.yml"]) []).2 ∨
        ∃ name, ((cacheOnly true).endpoint name).required = true ∧
          ((cacheOnly true).bootAll.run (answering [] ["cache.yml"]) []).1.Ends name .failed) := by
  have herr : ((cacheOnly true).bootAll.run (answering [] ["cache.yml"]) []).1.err ≠ none := by
    decide +kernel
  refine ⟨herr, (bootAll_error_iff (cacheOnly true) (answering [] ["cache.yml"]) rfl).mpr ?_ herr⟩
  exact .inr (.inr ⟨"cache", by decide +kernel, .inl (by decide +kernel)⟩)

/-! ### The counters -/

/-- **The counters agree with the results** of a boot that was not cancelled if and only if no
endpoint that was found is in a group whose Up failed. -/
theorem summary_agrees_iff (bm : BootManager) (env : Surroundings)
    (hrun : bm.bootAll.run env [] = (r, t)) (hlive : ¬Cancelled t) :
    (r.summary.started = GoMap.count (·.status = .started) r.summary.results ∧
      r.summary.remote = GoMap.count (fun result =>
        result.status = .remote || result.status = .distributed) r.summary.results ∧
      r.summary.discovered = GoMap.count (·.status = .discovered) r.summary.results ∧
      r.summary.skipped = GoMap.count (·.status = .skipped) r.summary.results) ↔
      ∀ name ∈ bm.endpoints, told (.found name) t = true → bm.groupFailed t name = false := by
  rcases (finished_of_run hrun).report with ⟨hcancelled, -⟩ | ⟨-, -, b, hb, hsummary, -⟩
  · exact absurd hcancelled hlive
  · have hdiscovered := hb.tallied.discovered
    have hlost : bm.lost t = 0 ↔
        ∀ name ∈ bm.endpoints, told (.found name) t = true → bm.groupFailed t name = false := by
      rw [lost, List.countP_eq_zero]
      refine forall_congr' fun name => imp_congr mem_keys.symm ?_
      rw [Bool.and_eq_true, not_and, Bool.not_eq_true]
    rw [← hlost, hsummary]
    constructor
    · rintro ⟨-, -, hcount, -⟩
      have hcount' : b.discovered = b.count (· = .discovered) := hcount
      omega
    · intro hzero
      rw [hzero] at hdiscovered
      exact ⟨hb.tallied.started, hb.tallied.remote, hdiscovered, hb.tallied.skipped⟩

/-- A cache that is found and then fails with its group: the summary counts a discovered endpoint
that the results do not have. -/
theorem summary_counts_lost :
    ¬Cancelled ((cacheOnly false).bootAll.run (answering ["cache"] ["cache.yml"]) []).2 ∧
      ((cacheOnly false).bootAll.run (answering ["cache"] ["cache.yml"]) []).1.summary.discovered ≠
        GoMap.count (·.status = .discovered)
          ((cacheOnly false).bootAll.run
            (answering ["cache"] ["cache.yml"]) []).1.summary.results := by
  refine ⟨?_, by decide +kernel⟩
  rintro ⟨phase, hphase⟩
  revert hphase
  rcases phase <;> decide +kernel

/-- A cache that is found, and whose group comes up. -/
theorem summary_agrees_started :
    told (.found "cache") ((cacheOnly false).bootAll.run (answering ["cache"] []) []).2 = true ∧
      ((cacheOnly false).bootAll.run (answering ["cache"] []) []).1.summary.discovered = 1 ∧
      ((cacheOnly false).bootAll.run (answering ["cache"] []) []).1.summary.discovered =
        GoMap.count (·.status = .discovered)
          ((cacheOnly false).bootAll.run (answering ["cache"] []) []).1.summary.results := by
  refine ⟨by decide +kernel, by decide +kernel,
    ((summary_agrees_iff (cacheOnly false) (answering ["cache"] []) rfl ?_).mpr
      fun name hname _ => ?_).2.2.1⟩
  · rintro ⟨phase, hphase⟩
    revert hphase
    rcases phase <;> decide +kernel
  · obtain rfl := mem_cacheOnly.mp hname
    decide +kernel

/-! ### The Ups -/

/-- The endpoint needs the compose file: it is enabled, not remote, and was not found. -/
def BootManager.Needs (bm : BootManager) (t : History) (file name : String) : Prop :=
  (bm.endpoint name).composeFile = file ∧ (bm.endpoint name).enabled = true ∧
    (bm.endpoint name).remote = false ∧ told (.found name) t = false

theorem tried_iff {file : String} : (told (.broke file) t || told (.raised file) t) = true ↔
    ∃ project o, project.file = file ∧ (⟨.up project, o⟩ : Event Outcome) ∈ t := by
  -- only the outcome of an Up tells either
  have htold : ∀ (c : SeamCall) (o : Outcome c),
      (Fact.toldBy (.broke file) c o || Fact.toldBy (.raised file) c o) = true ↔
        ∃ project, project.file = file ∧ c = .up project := by
    intro c o
    rcases c with keys | phase | target | project | project | names | _ | targets
    case up =>
      rcases o with _ | err <;> simp [Fact.toldBy]
    all_goals simp [Fact.toldBy]
  have hany : (told (.broke file) t || told (.raised file) t) = true ↔ ∃ e ∈ t,
      (Fact.toldBy (.broke file) e.call e.outcome ||
        Fact.toldBy (.raised file) e.call e.outcome) = true := by
    simp only [told, Bool.or_eq_true, List.any_eq_true, and_or_left, exists_or]
  rw [hany]
  constructor
  · rintro ⟨⟨c, o⟩, he, htold'⟩
    obtain ⟨project, hfile, rfl⟩ := (htold c o).mp htold'
    exact ⟨project, o, hfile, he⟩
  · rintro ⟨project, o, hfile, he⟩
    exact ⟨_, he, (htold _ o).mpr ⟨project, hfile, rfl⟩⟩

/-- **Every Up is for a compose file that some endpoint needs** if and only if there is no
orchestrator, or the boot was cancelled before, or every compose file of an enabled endpoint is
needed. -/
theorem bootAll_ups_needed_iff (bm : BootManager) (env : Surroundings)
    (hrun : bm.bootAll.run env [] = (r, t)) :
    (∀ project o, (⟨.up project, o⟩ : Event Outcome) ∈ t →
      ∃ name ∈ bm.endpoints, bm.Needs t project.file name) ↔
      bm.orchestrator = false ∨ told (.cancelled .discovery) t = true ∨
        ∀ name ∈ bm.endpoints, bm.grouped name = true →
          ∃ other ∈ bm.endpoints, bm.Needs t (bm.endpoint name).composeFile other := by
  have htries := (finished_of_run hrun).tries
  have hups : ∀ file, (∃ project o, project.file = file ∧ (⟨.up project, o⟩ : Event Outcome) ∈ t) ↔
      bm.orchestrator = true ∧ told (.cancelled .discovery) t = false ∧
        ∃ name ∈ bm.endpoints, bm.grouped name = true ∧ (bm.endpoint name).composeFile = file := by
    intro file
    rw [← tried_iff, htries file]
    simp only [mem_members, mem_keys]
  constructor
  · intro h
    by_cases horchestrator : bm.orchestrator = true
    · by_cases hcancelled : told (.cancelled .discovery) t = true
      · exact .inr (.inl hcancelled)
      · refine .inr (.inr fun name hname hgrouped => ?_)
        obtain ⟨project, o, hfile, hup⟩ := (hups (bm.endpoint name).composeFile).mpr
          ⟨horchestrator, Bool.eq_false_iff.mpr hcancelled, name, hname, hgrouped, rfl⟩
        exact hfile ▸ h project o hup
    · exact .inl (Bool.eq_false_iff.mpr horchestrator)
  · intro h project o hup
    obtain ⟨horchestrator, hcancelled, name, hname, hgrouped, hfile⟩ :=
      (hups project.file).mp ⟨project, o, rfl, hup⟩
    rcases h with h | h | h
    · rw [horchestrator] at h
      cases h
    · rw [hcancelled] at h
      cases h
    · exact hfile ▸ h name hname hgrouped

/-- A cache that was found is started all the same. -/
theorem bootAll_starts_discovered :
    ¬∀ project o, (⟨.up project, o⟩ : Event Outcome) ∈
        ((cacheOnly false).bootAll.run (answering ["cache"] []) []).2 →
      ∃ name ∈ (cacheOnly false).endpoints,
        (cacheOnly false).Needs ((cacheOnly false).bootAll.run (answering ["cache"] []) []).2
          project.file name := by
  intro h
  have htried : (told (.broke "cache.yml")
        ((cacheOnly false).bootAll.run (answering ["cache"] []) []).2 ||
      told (.raised "cache.yml")
        ((cacheOnly false).bootAll.run (answering ["cache"] []) []).2) = true := by
    decide +kernel
  obtain ⟨project, o, -, hup⟩ := tried_iff.mp htried
  obtain ⟨name, hname, -, -, -, hfound⟩ := h project o hup
  obtain rfl := mem_cacheOnly.mp hname
  revert hfound
  decide +kernel

/-- A cache that is not found needs its Up. -/
theorem bootAll_ups_needed_cache :
    told (.raised "cache.yml") ((cacheOnly false).bootAll.run (answering [] []) []).2 = true ∧
      ∀ project o, (⟨.up project, o⟩ : Event Outcome) ∈
          ((cacheOnly false).bootAll.run (answering [] []) []).2 →
        ∃ name ∈ (cacheOnly false).endpoints,
          (cacheOnly false).Needs ((cacheOnly false).bootAll.run (answering [] []) []).2
            project.file name := by
  refine ⟨by decide +kernel, (bootAll_ups_needed_iff (cacheOnly false) (answering [] []) rfl).mpr
    (.inr (.inr fun name hname _ => ⟨"cache", mem_cacheOnly.mpr rfl, ?_⟩))⟩
  obtain rfl := mem_cacheOnly.mp hname
  exact ⟨rfl, rfl, rfl, by decide +kernel⟩

end Containers.Boot
