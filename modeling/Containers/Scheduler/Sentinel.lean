import Containers.Scheduler.Candidates

/-!
# The score `0` says "not placed"

The distributor takes the score `0` of a decision for "no host was selected". A fitting host may
well score `0` – the score is weighted and clamped – which is why `floorScore` lifts the score of a
selected host off the sentinel.

`schedule_score_sentinel` is that the sentinel is unambiguous as long as no host has the empty name:
the score is `0` exactly when nobody was selected, it is otherwise positive and at most `1`, and
somebody is selected as soon as the strategy has a candidate. `scheduleBatch_score_sentinel` is the
same for every decision of a batch.
-/

namespace Containers.Scheduler

open Go Remote List AList GoMap

variable {P : Platform} {opts : Options} {snapshots : Snapshots} {hosts : List RemoteHost}
  {req : ContainerRequirements} {name : String}

/-! ### Nobody is called by the empty name -/

/-- **No host has the empty name**: not the local one, not a remote one, and not one
that was probed. -/
structure Named (opts : Options) (snapshots : Snapshots) (hosts : List RemoteHost) : Prop where
  localHost : opts.localHostName ≠ ""
  remote : ∀ h ∈ hosts, h.name ≠ ""
  probed : ∀ name ∈ snapshots, name ≠ ""

/-- **A candidate is the local host, a remote one or a probed one**, whatever the
strategy. -/
theorem Candidate.origin (h : Candidate P opts snapshots hosts req name) :
    name = opts.localHostName ∨ (∃ h ∈ hosts, h.name = name) ∨ name ∈ snapshots := by
  rw [Candidate] at h
  cases hs : opts.strategy with
  | resourceAware | binPack | roundRobin | spread =>
    rw [hs] at h
    rcases h with ⟨hn, -⟩ | ⟨h, hh, hn, -⟩
    · exact .inl hn
    · exact .inr (.inl ⟨h, hh, hn⟩)
  | affinity =>
    rw [hs] at h
    obtain ⟨h, hh, hn, -⟩ := h
    exact .inr (.inl ⟨h, hh, hn⟩)
  | gpuAffinity =>
    rw [hs] at h
    obtain ⟨r, hl, -⟩ := h
    exact .inr (.inr (lookup_isSome.mp (by rw [hl]; rfl)))

theorem Named.candidate_ne_empty (hn : Named opts snapshots hosts)
    (h : Candidate P opts snapshots hosts req name) : name ≠ "" := by
  rcases h.origin with rfl | ⟨host, hmem, rfl⟩ | hp
  · exact hn.localHost
  · exact hn.remote host hmem
  · exact hn.probed name hp

/-! ### The score a strategy reports -/

theorem remoteCandidates_score_mem_Icc {c : HostScore}
    (h : c ∈ remoteCandidates P opts snapshots hosts req fun r => score P opts (some r) req) :
    c.score ∈ Set.Icc (0 : ℚ) 1 := by
  obtain ⟨_, -, r, -, rfl⟩ := mem_remoteCandidates.mp h
  exact score_mem_Icc P opts (some r) req

theorem candidates_score_mem_Icc {c : HostScore}
    (h : c ∈ candidates P opts snapshots hosts req fun r => score P opts (some r) req) :
    c.score ∈ Set.Icc (0 : ℚ) 1 := by
  rcases mem_candidates.mp h with ⟨r, -, rfl⟩ | h
  · exact score_mem_Icc P opts (some r) req
  · exact remoteCandidates_score_mem_Icc h

theorem scheduleRoundRobin_score_mem_Icc {counter : UInt64} :
    (scheduleRoundRobin opts hosts req counter).1.score ∈ Set.Icc (0 : ℚ) 1 := by
  unfold scheduleRoundRobin
  split
  · simp
  · next a rest _ =>
    have hlen : (1 : ℚ) ≤ (a :: rest).length := by simp
    exact ⟨by positivity, (div_le_one (by positivity)).mpr hlen⟩

/-- **Every strategy reports a score between `0` and `1`.** -/
theorem strategyDecision_score_mem_Icc (s : DefaultScheduler) :
    (strategyDecision P s snapshots hosts req).1.score ∈ Set.Icc (0 : ℚ) 1 := by
  rw [strategyDecision]
  cases s.opts.strategy with
  | resourceAware =>
    simp only [scheduleResourceAware]
    split
    · next c hc =>
      split_ifs at hc
      exact candidates_score_mem_Icc (mem_of_find?_eq_some hc)
    · split
      · simp
      · next best hb =>
        exact candidates_score_mem_Icc (P.isBest_firstOf (byKey_scoreLess _) hb).1
  | roundRobin => exact scheduleRoundRobin_score_mem_Icc
  | affinity =>
    simp only [scheduleAffinity]
    split
    · simp
    · next best hb =>
      exact remoteCandidates_score_mem_Icc (isBest_runningBest byKey_affinityLess hb).1
  | spread =>
    simp only [scheduleSpread]
    split <;> norm_num
  | binPack =>
    simp only [scheduleBinPack]
    split <;> norm_num
  | gpuAffinity => exact score_mem_Icc P _ _ _

/-- **A strategy without a candidate reports `0`.** For `gpu_affinity` that is the
score of the nil snapshot read under the empty name. -/
theorem strategyDecision_score_of_no_candidate {s : DefaultScheduler} (hkey : "" ∉ snapshots)
    (h : candidateNames P s.opts snapshots hosts req = []) :
    (strategyDecision P s snapshots hosts req).1.score = 0 := by
  rw [candidateNames] at h
  rw [strategyDecision]
  cases hs : s.opts.strategy with
  | resourceAware =>
    rw [hs] at h
    simp only [scheduleResourceAware, map_eq_nil_iff.mp h, find?_nil, ite_self,
      P.firstOf_nil]
  | roundRobin =>
    rw [hs] at h
    dsimp only at h ⊢
    unfold scheduleRoundRobin
    rw [h]
  | affinity =>
    rw [hs] at h
    simp only [scheduleAffinity, map_eq_nil_iff.mp h]
    rfl
  | spread =>
    rw [hs] at h
    dsimp only at h ⊢
    rw [scheduleSpread, h, P.firstOf_nil]
  | binPack =>
    rw [hs] at h
    simp only [scheduleBinPack, map_eq_nil_iff.mp h, P.firstOf_nil]
  | gpuAffinity =>
    rw [hs] at h
    dsimp only at h
    have hpicked : (pickGPUAffinity P s.opts snapshots req).1 = "" := by
      rcases @pickGPUAffinity_selects P s.opts snapshots req with hmem | ⟨-, hempty⟩
      · rw [h] at hmem
        exact absurd hmem not_mem_nil
      · exact hempty
    have hindex : index snapshots none "" = none := by
      rw [index, lookup_eq_none.mpr hkey, Option.getD_none]
    simp only [hpicked, hindex, score]

/-! ### The sentinel -/

theorem floorScore_score {d : PlacementDecision} (h : d.score ∈ Set.Icc (0 : ℚ) 1)
    (hnone : d.hostName = "" → d.score = 0) :
    ((floorScore d).score = 0 ↔ d.hostName = "") ∧
      (d.hostName ≠ "" → 0 < (floorScore d).score ∧ (floorScore d).score ≤ 1) := by
  rw [floorScore]
  by_cases hname : d.hostName = ""
  · simp [hname, hnone hname]
  · by_cases hzero : d.score = 0
    · simp only [hname, hzero, ne_eq, minSelectedScore]
      norm_num
    · have hpos : 0 < d.score := lt_of_le_of_ne h.1 (Ne.symm hzero)
      simp [hname, hzero, hpos, h.2]

theorem scheduleOne_score_sentinel (P : Platform) (s : DefaultScheduler)
    (hn : Named s.opts snapshots hosts) (req : ContainerRequirements) :
    let d := (scheduleOne P s snapshots hosts req).1
    (d.score = 0 ↔ d.hostName = "") ∧ (d.hostName ≠ "" → 0 < d.score ∧ d.score ≤ 1) ∧
      ((∃ name, Candidate P s.opts snapshots hosts req name) → d.hostName ≠ "") := by
  have hselects := scheduleOne_hostName (P := P) s snapshots hosts req
  simp only [scheduleOne, floorScore_hostName] at hselects ⊢
  have hempty : (strategyDecision P s snapshots hosts req).1.hostName = "" →
      candidateNames P s.opts snapshots hosts req = [] := by
    intro hname
    rcases hselects with hmem | ⟨hnil, -⟩
    · exact absurd hname (hn.candidate_ne_empty (mem_candidateNames.mp hmem))
    · exact hnil
  -- `gpu_affinity` scores the snapshot under the name it picked, and there is none under ""
  have hkey : "" ∉ snapshots := fun hmem => hn.probed "" hmem rfl
  obtain ⟨hzero, hpos⟩ := floorScore_score (strategyDecision_score_mem_Icc s)
    fun hname => strategyDecision_score_of_no_candidate hkey (hempty hname)
  refine ⟨hzero, hpos, ?_⟩
  rintro ⟨name, hcand⟩ hname
  have hmem := mem_candidateNames.mpr hcand
  rw [hempty hname] at hmem
  exact absurd hmem not_mem_nil

/-- **The score `0` says "not placed"**, and says it exactly then. With no host
called by the empty name, a decision scores `0` if and only if it selects nobody, a
selected host scores above `0` and at most `1`, and a host is selected whenever one
passes the test of the strategy's own loop. -/
theorem schedule_score_sentinel (P : Platform) (s : DefaultScheduler) (snapshots : Snapshots)
    (hosts : List RemoteHost) (req : ContainerRequirements)
    (hlocal : s.opts.localHostName ≠ "") (hhosts : ∀ h ∈ hosts, h.name ≠ "")
    (hkeys : ∀ name ∈ snapshots, name ≠ "") :
    let d := (schedule P s snapshots hosts req).1
    (d.score = 0 ↔ d.hostName = "") ∧ (d.hostName ≠ "" → 0 < d.score ∧ d.score ≤ 1) ∧
      ((∃ name, Candidate P s.opts snapshots hosts req name) → d.hostName ≠ "") :=
  scheduleOne_score_sentinel P s ⟨hlocal, hhosts, hkeys⟩ req

/-- A host that fits scores `0` when no resource has a weight, and is placed all the
same. -/
theorem schedule_score_sentinel_weightless :
    let d := (schedule Platform.reference
      (newScheduler { cpuWeight := 0, memoryWeight := 0, diskWeight := 0, networkWeight := 0 })
      (GoMap.ofList [("h1", some {})]) [{ name := "h1" }] {}).1
    d.hostName = "h1" ∧ 0 < d.score ∧ d.score ≤ 1 := by
  have hname : (schedule Platform.reference
      (newScheduler { cpuWeight := 0, memoryWeight := 0, diskWeight := 0, networkWeight := 0 })
      (ofList [("h1", some {})]) [{ name := "h1" }] {}).1.hostName = "h1" := by
    decide +kernel
  refine ⟨hname, (schedule_score_sentinel _ _ _ _ _ (by decide) ?_ ?_).2.1 (by rw [hname]; decide)⟩
  · intro h hh
    rw [mem_singleton.mp hh]
    decide
  · intro name hmem
    obtain ⟨v, hv⟩ := Option.isSome_iff_exists.mp (lookup_isSome.mpr hmem)
    have hentry := mem_singleton.mp (mem_of_lookup_ofList hv)
    rw [(Prod.mk.inj hentry).1]
    decide

/-- **The sentinel is unambiguous for every decision of a batch**: the working
snapshots have the keys of the snapshots the batch started from. -/
theorem scheduleBatch_score_sentinel (P : Platform) (s : DefaultScheduler)
    (hn : Named s.opts snapshots hosts) (reqs : List ContainerRequirements) :
    ∀ d ∈ (scheduleBatch P s snapshots hosts reqs).1.decisions,
      (d.score = 0 ↔ d.hostName = "") ∧ (d.hostName ≠ "" → 0 < d.score ∧ d.score ≤ 1) := by
  rw [scheduleBatch_decisions]
  refine (batch_induction P (motive := fun b => Named s.opts b.working hosts ∧
    ∀ d ∈ b.decisions, (d.score = 0 ↔ d.hostName = "") ∧
      (d.hostName ≠ "" → 0 < d.score ∧ d.score ≤ 1)) ⟨hn, by simp⟩ ?_).2
  rintro b hopts ⟨hb, hd⟩ req -
  refine ⟨⟨hb.localHost, hb.remote, fun name hmem => hb.probed name ?_⟩, fun d hmem => ?_⟩
  · rw [batchStep] at hmem
    split at hmem
    · exact (mem_deductAt P).mp hmem
    · exact hmem
  · rcases mem_append.mp hmem with hmem | hmem
    · exact hd d hmem
    · rw [mem_singleton.mp hmem]
      obtain ⟨hzero, hpos, -⟩ := scheduleOne_score_sentinel P b.sched (hopts ▸ hb) req
      exact ⟨hzero, hpos⟩

def probed : Snapshots :=
  ofList [("h1", some { cpuCores := 8, memoryTotalMB := 16384, diskTotalMB := 500000 })]

/-- The first of two containers takes the cores that the second would need, and is the only one that
scores. -/
theorem scheduleBatch_score_sentinel_probed :
    let batch := (scheduleBatch .reference (newScheduler {}) probed [{ name := "h1" }]
      [{ name := "c1", cpuCores := 5 }, { name := "c2", cpuCores := 5 }]).1.decisions
    batch.map (·.hostName) = ["h1", ""] ∧ ∀ d ∈ batch,
      (d.score = 0 ↔ d.hostName = "") ∧ (d.hostName ≠ "" → 0 < d.score ∧ d.score ≤ 1) := by
  have hkeys : ∀ name ∈ probed.keys, name ≠ "" := by decide +kernel
  exact ⟨by decide +kernel, scheduleBatch_score_sentinel _ _
    ⟨by decide, by decide, fun name hmem => hkeys name (mem_keys.mp hmem)⟩ _⟩

end Containers.Scheduler
