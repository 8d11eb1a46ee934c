import Containers.Scheduler.Scheduler

/-!
# Who can be selected, and who is

Each strategy's own test for a host, as one predicate (`Candidate`), and the one statement about the
six selections that the safety results need: a decision names a candidate, or there is none and it
names nobody (`scheduleOne_hostName`).

`gpu_affinity` is the odd one out. Its loop keeps a host and a score rather than an optional pair,
starting from the empty name and a score below every score; that it is nevertheless the ordinary
running best over the hosts that pass its test is `foldl_gpuAffinityStep`.
-/

namespace Containers.Scheduler

open Go Remote List

variable {c : HostScore}

section Candidate

variable (P : Platform) (opts : Options) (snapshots : Snapshots) (hosts : List RemoteHost)
  (req : ContainerRequirements)

/-- **The test of a strategy's selection loop**, for the host `name`: labels,
presence of a snapshot, fitting and presence of a GPU, as each strategy has
them. -/
def Candidate (name : String) : Prop :=
  match opts.strategy with
  | .resourceAware | .binPack =>
    (name = opts.localHostName ∧ labelsMatch ∅ req.labels = true ∧
      ∃ snap, snapshots.lookup name = some snap ∧ canFit P opts snap req = true) ∨
    ∃ h ∈ hosts, h.name = name ∧ labelsMatch h.labels req.labels = true ∧
      ∃ snap, snapshots.lookup name = some snap ∧ canFit P opts snap req = true
  | .affinity =>
    ∃ h ∈ hosts, h.name = name ∧ labelsMatch h.labels req.labels = true ∧
      ∃ snap, snapshots.lookup name = some snap ∧ canFit P opts snap req = true
  | .roundRobin | .spread =>
    (name = opts.localHostName ∧ labelsMatch ∅ req.labels = true) ∨
    ∃ h ∈ hosts, h.name = name ∧ h.name ∈ snapshots ∧ labelsMatch h.labels req.labels = true
  | .gpuAffinity =>
    ∃ r, snapshots.lookup name = some (some r) ∧ canFit P opts (some r) req = true ∧
      r.hasGPU = true

/-- A snapshot that passes the test of `pickGPUAffinity`'s loop, with its score. -/
def gpuCandidate (e : Σ _ : String, Option HostResources) : Option HostScore :=
  if canFit P opts e.2 req && e.2.any (·.hasGPU) then some ⟨e.1, score P opts e.2 req⟩ else none

/-- The hosts `pickGPUAffinity` considers, with their scores, in map order. -/
def gpuCandidates : List HostScore := snapshots.entries.filterMap (gpuCandidate P opts req)

def candidateNames : List String :=
  match opts.strategy with
  | .resourceAware =>
    (candidates P opts snapshots hosts req fun r => score P opts (some r) req).map (·.name)
  | .binPack =>
    (candidates P opts snapshots hosts req fun r => r.cpuPercent + r.memoryPercent).map (·.name)
  | .affinity =>
    (remoteCandidates P opts snapshots hosts req fun r => score P opts (some r) req).map (·.name)
  | .roundRobin | .spread => allNames opts (hostsPresentInSnapshots snapshots hosts) req
  | .gpuAffinity => (gpuCandidates P opts snapshots req).map (·.name)

end Candidate

variable {P : Platform} {opts : Options} {snapshots : Snapshots} {hosts : List RemoteHost}
  {req : ContainerRequirements} {name : String} {labels : Labels} {value : HostResources → ℚ}

/-! ### The test, list by list -/

theorem fitting_eq_some_iff {r : HostResources} :
    fitting P opts snapshots req name labels = some r ↔
      snapshots.lookup name = some (some r) ∧ labelsMatch labels req.labels = true ∧
        canFit P opts (some r) req = true := by
  rw [fitting]
  cases hl : snapshots.lookup name with
  | none => simp
  | some snap =>
    by_cases hm : labelsMatch labels req.labels = true
    · by_cases hf : canFit P opts snap req = true
      · simp only [hm, hf, Option.some.injEq, true_and]
        exact ⟨fun h => ⟨h, h ▸ hf⟩, fun h => h.1⟩
      · simp only [hm, hf, Bool.and_false, if_false, reduceCtorEq,
          Option.some.injEq, true_and, false_iff, not_and, Bool.not_eq_true]
        exact fun h => by simpa [h] using hf
    · simp [hm]

theorem fitting_isSome_iff :
    (∃ r, fitting P opts snapshots req name labels = some r) ↔
      labelsMatch labels req.labels = true ∧
        ∃ snap, snapshots.lookup name = some snap ∧ canFit P opts snap req = true := by
  constructor
  · rintro ⟨r, hr⟩
    obtain ⟨hl, hm, hf⟩ := fitting_eq_some_iff.mp hr
    exact ⟨hm, some r, hl, hf⟩
  · rintro ⟨hm, snap, hl, hf⟩
    obtain ⟨r, rfl⟩ := exists_of_canFit P hf
    exact ⟨r, fitting_eq_some_iff.mpr ⟨hl, hm, hf⟩⟩

theorem mem_remoteCandidates :
    c ∈ remoteCandidates P opts snapshots hosts req value ↔
      ∃ h ∈ hosts, ∃ r, fitting P opts snapshots req h.name h.labels = some r ∧
        c = ⟨h.name, value r⟩ := by
  simp only [remoteCandidates, mem_filterMap, Option.map_eq_some_iff, @eq_comm HostScore c]

theorem mem_candidates :
    c ∈ candidates P opts snapshots hosts req value ↔
      (∃ r, fitting P opts snapshots req opts.localHostName ∅ = some r ∧
        c = ⟨opts.localHostName, value r⟩) ∨
      c ∈ remoteCandidates P opts snapshots hosts req value := by
  simp only [candidates, mem_append, Option.mem_toList, Option.map_eq_some_iff,
    @eq_comm HostScore c]

theorem mem_map_name_remoteCandidates :
    name ∈ (remoteCandidates P opts snapshots hosts req value).map (·.name) ↔
      ∃ h ∈ hosts, h.name = name ∧ labelsMatch h.labels req.labels = true ∧
        ∃ snap, snapshots.lookup name = some snap ∧ canFit P opts snap req = true := by
  constructor
  · intro hname
    obtain ⟨c, hc, rfl⟩ := mem_map.mp hname
    obtain ⟨h, hh, r, hr, rfl⟩ := mem_remoteCandidates.mp hc
    exact ⟨h, hh, rfl, fitting_isSome_iff.mp ⟨r, hr⟩⟩
  · rintro ⟨h, hh, rfl, hfit⟩
    obtain ⟨r, hr⟩ := fitting_isSome_iff.mpr hfit
    exact mem_map.mpr ⟨_, mem_remoteCandidates.mpr ⟨h, hh, r, hr, rfl⟩, rfl⟩

theorem mem_map_name_candidates :
    name ∈ (candidates P opts snapshots hosts req value).map (·.name) ↔
      (name = opts.localHostName ∧ labelsMatch ∅ req.labels = true ∧
        ∃ snap, snapshots.lookup name = some snap ∧ canFit P opts snap req = true) ∨
      ∃ h ∈ hosts, h.name = name ∧ labelsMatch h.labels req.labels = true ∧
        ∃ snap, snapshots.lookup name = some snap ∧ canFit P opts snap req = true := by
  rw [← @mem_map_name_remoteCandidates P opts snapshots hosts req name value]
  constructor
  · intro h
    obtain ⟨c, hc, rfl⟩ := mem_map.mp h
    rcases mem_candidates.mp hc with ⟨r, hr, rfl⟩ | hc
    · exact .inl ⟨rfl, fitting_isSome_iff.mp ⟨r, hr⟩⟩
    · exact .inr (mem_map_of_mem hc)
  · rintro (⟨rfl, hfit⟩ | h)
    · obtain ⟨r, hr⟩ := fitting_isSome_iff.mpr hfit
      exact mem_map.mpr ⟨_, mem_candidates.mpr (.inl ⟨r, hr, rfl⟩), rfl⟩
    · obtain ⟨c, hc, rfl⟩ := mem_map.mp h
      exact mem_map_of_mem (mem_candidates.mpr (.inr hc))

theorem mem_allNames :
    name ∈ allNames opts hosts req ↔
      (name = opts.localHostName ∧ labelsMatch ∅ req.labels = true) ∨
      ∃ h ∈ hosts, h.name = name ∧ labelsMatch h.labels req.labels = true := by
  rw [allNames, mem_append]
  refine or_congr ?_ ?_
  · by_cases hm : labelsMatch ∅ req.labels = true <;> simp [hm]
  · simp only [mem_map, mem_filter]
    exact ⟨fun ⟨h, ⟨hh, hm⟩, hn⟩ => ⟨h, hh, hn, hm⟩, fun ⟨h, hh, hn, hm⟩ => ⟨h, ⟨hh, hm⟩, hn⟩⟩

theorem mem_gpuCandidates :
    c ∈ gpuCandidates P opts snapshots req ↔
      ∃ r, snapshots.lookup c.name = some (some r) ∧ canFit P opts (some r) req = true ∧
        r.hasGPU = true ∧ c.score = score P opts (some r) req := by
  simp only [gpuCandidates, mem_filterMap]
  constructor
  · rintro ⟨⟨n, snap⟩, he, hc⟩
    rw [gpuCandidate] at hc
    split_ifs at hc with hgate
    rw [Bool.and_eq_true] at hgate
    obtain ⟨r, rfl⟩ := exists_of_canFit P hgate.1
    obtain rfl := Option.some_inj.mp hc
    exact ⟨r, GoMap.lookup_of_mem_entries he, hgate.1, by simpa using hgate.2, rfl⟩
  · rintro ⟨r, hl, hf, hg, hs⟩
    refine ⟨⟨c.name, some r⟩, GoMap.mem_entries_of_lookup hl, ?_⟩
    rw [gpuCandidate, if_pos (by simp [hf, hg]), ← hs]

/-- **The names a strategy selects from are those that pass its test.** -/
theorem mem_candidateNames :
    name ∈ candidateNames P opts snapshots hosts req ↔
      Candidate P opts snapshots hosts req name := by
  rw [candidateNames, Candidate]
  cases opts.strategy with
  | resourceAware => exact mem_map_name_candidates
  | binPack => exact mem_map_name_candidates
  | affinity => exact mem_map_name_remoteCandidates
  | roundRobin =>
    simp only [mem_allNames, hostsPresentInSnapshots, mem_filter, decide_eq_true_eq]
    refine or_congr Iff.rfl (exists_congr fun h => ?_)
    tauto
  | spread =>
    simp only [mem_allNames, hostsPresentInSnapshots, mem_filter, decide_eq_true_eq]
    refine or_congr Iff.rfl (exists_congr fun h => ?_)
    tauto
  | gpuAffinity =>
    simp only [mem_map]
    constructor
    · rintro ⟨c, hc, rfl⟩
      obtain ⟨r, hl, hf, hg, -⟩ := mem_gpuCandidates.mp hc
      exact ⟨r, hl, hf, hg⟩
    · rintro ⟨r, hl, hf, hg⟩
      exact ⟨⟨name, score P opts (some r) req⟩, mem_gpuCandidates.mpr ⟨r, hl, hf, hg, rfl⟩, rfl⟩

/-! ### The loop of `gpu_affinity` -/

/-- **The loop of `gpu_affinity` is a running best**: its starting pair stands for
"none yet", because a score is never below `0`. -/
theorem foldl_gpuAffinityStep (es : List (Σ _ : String, Option HostResources))
    (o : Option HostScore) :
    es.foldl (gpuAffinityStep P opts req) (o.getD ⟨"", -1⟩) =
      ((es.filterMap (gpuCandidate P opts req)).foldl (keepBest affinityLess) o).getD
        ⟨"", -1⟩ := by
  -- the invariant is that the pair in hand is `o`, or the starting pair as long as there is none
  induction es generalizing o with
  | nil => rfl
  | cons e es ih =>
    by_cases hgate : (canFit P opts e.2 req && e.2.any (·.hasGPU)) = true
    · have hstep : gpuAffinityStep P opts req (o.getD ⟨"", -1⟩) e =
          (keepBest affinityLess o ⟨e.1, score P opts e.2 req⟩).getD ⟨"", -1⟩ := by
        rw [gpuAffinityStep, if_neg (by simpa using hgate)]
        cases o with
        | none =>
          have hlt : (-1 : ℚ) < score P opts e.2 req :=
            lt_of_lt_of_le (by norm_num) (score_nonneg P opts e.2 req)
          simp [keepBest, affinityLess, hlt]
        | some b =>
          by_cases hb : affinityLess ⟨e.1, score P opts e.2 req⟩ b = true <;> simp [keepBest, hb]
      have hcand : gpuCandidate P opts req e = some ⟨e.1, score P opts e.2 req⟩ := if_pos hgate
      rw [foldl_cons, hstep, ih, filterMap_cons_some hcand, foldl_cons]
    · have hstep : gpuAffinityStep P opts req (o.getD ⟨"", -1⟩) e = o.getD ⟨"", -1⟩ := by
        rw [gpuAffinityStep, if_pos (by simpa [Bool.and_eq_true, imp_iff_not_or] using hgate)]
      have hcand : gpuCandidate P opts req e = none := if_neg hgate
      rw [foldl_cons, hstep, ih, filterMap_cons_none hcand]

theorem pickGPUAffinity_eq :
    (pickGPUAffinity P opts snapshots req).1 =
      ((runningBest affinityLess (gpuCandidates P opts snapshots req)).getD ⟨"", -1⟩).name := by
  have hfold := @foldl_gpuAffinityStep P opts req snapshots.entries none
  rw [Option.getD_none] at hfold
  simp only [pickGPUAffinity]
  rw [hfold]
  split_ifs with h
  · exact h.symm
  · rfl

/-! ### The selection -/

/-- The name a decision carries, against the names it was selected from. -/
def Selects (names : List String) (hostName : String) : Prop :=
  hostName ∈ names ∨ names = [] ∧ hostName = ""

theorem selects_of_option {l : List HostScore} {o : Option HostScore}
    (hsome : ∀ c, o = some c → c ∈ l) (hnone : o = none → l = []) (d : HostScore)
    (hd : d.name = "") : Selects (l.map (·.name)) (o.getD d).name := by
  cases o with
  | none => exact .inr ⟨by rw [hnone rfl]; rfl, hd⟩
  | some c => exact .inl (mem_map_of_mem (hsome c rfl))

theorem scheduleResourceAware_selects :
    Selects ((candidates P opts snapshots hosts req fun r => score P opts (some r) req).map
      (·.name)) (scheduleResourceAware P opts snapshots hosts req).hostName := by
  simp only [scheduleResourceAware]
  split
  · next c hc =>
    -- the preferred local candidate
    split_ifs at hc
    exact .inl (mem_map_of_mem (mem_of_find?_eq_some hc))
  · split
    · next hn => exact .inr ⟨by rw [(P.firstOf_eq_none_iff).mp hn]; rfl, rfl⟩
    · next best hb =>
      exact .inl (mem_map_of_mem (P.isBest_firstOf (byKey_scoreLess _) hb).1)

theorem scheduleBinPack_selects :
    Selects ((candidates P opts snapshots hosts req fun r => r.cpuPercent + r.memoryPercent).map
      (·.name)) (scheduleBinPack P opts snapshots hosts req).hostName := by
  rw [scheduleBinPack]
  split
  · next hn => exact .inr ⟨by rw [(P.firstOf_eq_none_iff).mp hn]; rfl, rfl⟩
  · next best hb =>
    exact .inl (mem_map_of_mem (P.isBest_firstOf (byKey_scoreLess _) hb).1)

theorem scheduleAffinity_selects :
    Selects ((remoteCandidates P opts snapshots hosts req fun r => score P opts (some r) req).map
      (·.name)) (scheduleAffinity P opts snapshots hosts req).hostName := by
  rw [scheduleAffinity]
  split
  · next hn => exact .inr ⟨by rw [(runningBest_eq_none_iff byKey_affinityLess).mp hn]; rfl, rfl⟩
  · next best hb =>
    exact .inl (mem_map_of_mem (isBest_runningBest byKey_affinityLess hb).1)

theorem scheduleSpread_selects {existing : String → ℤ} :
    Selects (allNames opts hosts req) (scheduleSpread P opts hosts req existing).hostName := by
  rw [scheduleSpread]
  split
  · next hn => exact .inr ⟨(P.firstOf_eq_none_iff).mp hn, rfl⟩
  · next selected hs => exact .inl (P.isBest_firstOf (byKey_spreadLess _ _) hs).1

/-- **`spread` selects a host with the fewest containers.** -/
theorem scheduleSpread_least (existing : String → ℤ) {name : String}
    (hname : name ∈ allNames opts hosts req) :
    (scheduleSpread P opts hosts req existing).hostName ∈ allNames opts hosts req ∧
      existing (scheduleSpread P opts hosts req existing).hostName ≤ existing name := by
  rw [scheduleSpread]
  split
  · next hn => exact absurd (P.firstOf_eq_none_iff.mp hn) (ne_nil_of_mem hname)
  · next selected hs =>
    obtain ⟨hmem, hmin⟩ := P.isBest_firstOf (byKey_spreadLess _ _) hs
    have hle := hmin name hname
    rw [spreadKey, spreadKey, Prod.Lex.toLex_le_toLex] at hle
    exact ⟨hmem, hle.elim le_of_lt fun heq => le_of_eq heq.1⟩

/-- **`round_robin` reads the list at its counter**, modulo the length of the list. -/
theorem scheduleRoundRobin_hostName (counter : UInt64) :
    (scheduleRoundRobin opts hosts req counter).1.hostName =
      (allNames opts hosts req).getD (counter.toNat % (allNames opts hosts req).length) "" := by
  unfold scheduleRoundRobin
  split
  · next hn => rw [hn]; rfl
  · next a rest hn =>
    have hlt : counter.toNat % (a :: rest).length < (a :: rest).length :=
      Nat.mod_lt _ (by simp)
    rw [hn, getD_eq_getElem?_getD, getElem?_eq_getElem hlt]
    simp

theorem scheduleRoundRobin_selects {counter : UInt64} :
    Selects (allNames opts hosts req) (scheduleRoundRobin opts hosts req counter).1.hostName := by
  rw [scheduleRoundRobin]
  split
  · next hn => exact .inr ⟨hn, rfl⟩
  · next a rest hn =>
    rw [hn]
    exact .inl (get_mem _ _)

theorem pickGPUAffinity_selects :
    Selects ((gpuCandidates P opts snapshots req).map (·.name))
      (pickGPUAffinity P opts snapshots req).1 := by
  rw [pickGPUAffinity_eq]
  exact selects_of_option (fun c hc => (isBest_runningBest byKey_affinityLess hc).1)
    ((runningBest_eq_none_iff byKey_affinityLess).mp) _ rfl

/-- **A decision names a candidate of its strategy, or there is none and it names
nobody.** -/
theorem scheduleOne_hostName (s : DefaultScheduler) (snapshots : Snapshots)
    (hosts : List RemoteHost) (req : ContainerRequirements) :
    Selects (candidateNames P s.opts snapshots hosts req)
      (scheduleOne P s snapshots hosts req).1.hostName := by
  simp only [scheduleOne, floorScore_hostName, strategyDecision, candidateNames]
  cases s.opts.strategy with
  | resourceAware => exact scheduleResourceAware_selects
  | roundRobin => exact scheduleRoundRobin_selects
  | affinity => exact scheduleAffinity_selects
  | spread => exact scheduleSpread_selects
  | binPack => exact scheduleBinPack_selects
  | gpuAffinity => exact pickGPUAffinity_selects

theorem candidate_of_scheduleOne {s : DefaultScheduler}
    (h : (scheduleOne P s snapshots hosts req).1.hostName ≠ "") :
    Candidate P s.opts snapshots hosts req (scheduleOne P s snapshots hosts req).1.hostName := by
  rcases scheduleOne_hostName (P := P) s snapshots hosts req with hmem | ⟨-, hempty⟩
  · exact mem_candidateNames.mp hmem
  · exact absurd hempty h

/-- The strategies that look at the resources of a host: the other two place by
count or by turn alone. -/
def ResourceBased (strategy : PlacementStrategy) : Prop :=
  strategy = .resourceAware ∨ strategy = .affinity ∨ strategy = .binPack ∨
    strategy = .gpuAffinity

/-- **A candidate of a resource-based strategy fits**: it has a snapshot, and the
container fits in it. -/
theorem Candidate.canFit (hs : ResourceBased opts.strategy)
    (h : Candidate P opts snapshots hosts req name) :
    ∃ r, snapshots.lookup name = some (some r) ∧ canFit P opts (some r) req = true := by
  have hsnap : (∃ snap, snapshots.lookup name = some snap ∧
      Scheduler.canFit P opts snap req = true) →
      ∃ r, snapshots.lookup name = some (some r) ∧
        Scheduler.canFit P opts (some r) req = true := by
    rintro ⟨snap, hl, hf⟩
    obtain ⟨r, rfl⟩ := exists_of_canFit P hf
    exact ⟨r, hl, hf⟩
  rw [Candidate] at h
  rcases hs with hs | hs | hs | hs <;> rw [hs] at h
  · rcases h with ⟨-, -, h⟩ | ⟨_, -, -, -, h⟩ <;> exact hsnap h
  · obtain ⟨_, -, -, -, h⟩ := h
    exact hsnap h
  · rcases h with ⟨-, -, h⟩ | ⟨_, -, -, -, h⟩ <;> exact hsnap h
  · obtain ⟨r, hl, hf, -⟩ := h
    exact ⟨r, hl, hf⟩

/-- **What one turn of a batch does**, under a resource-based strategy: it places
the container on a host whose working snapshot fits it and deducts it there, or it
places it nowhere and leaves the working snapshots alone. -/
theorem batchStep_cases {b : BatchState} (hs : ResourceBased b.sched.opts.strategy)
    (hosts : List RemoteHost) (req : ContainerRequirements) :
    ∃ d : PlacementDecision, d.requirement = req ∧
      (batchStep P hosts b req).decisions = b.decisions ++ [d] ∧
      (d.hostName = "" ∧ (batchStep P hosts b req).working = b.working ∨
        d.hostName ≠ "" ∧
        (∃ r, b.working.lookup d.hostName = some (some r) ∧
          canFit P b.sched.opts (some r) req = true) ∧
        (batchStep P hosts b req).working = deductAt P b.working d.hostName req) := by
  refine ⟨(scheduleOne P b.sched b.working hosts req).1, scheduleOne_requirement _ _ _ _ _, rfl, ?_⟩
  by_cases hname : (scheduleOne P b.sched b.working hosts req).1.hostName = ""
  · exact .inl ⟨hname, if_neg (not_not.mpr hname)⟩
  · exact .inr ⟨hname, (candidate_of_scheduleOne hname).canFit hs, if_pos hname⟩

/-- **A sole candidate is selected.** -/
theorem hostName_of_sole_candidate {s : DefaultScheduler}
    (h : Candidate P s.opts snapshots hosts req name)
    (hsole : ∀ x, Candidate P s.opts snapshots hosts req x → x = name) :
    (schedule P s snapshots hosts req).1.hostName = name := by
  rcases scheduleOne_hostName (P := P) s snapshots hosts req with hmem | ⟨hnil, -⟩
  · exact hsole _ (mem_candidateNames.mp hmem)
  · have hmem := mem_candidateNames.mpr h
    rw [hnil] at hmem
    exact absurd hmem not_mem_nil

section Turns

variable (P snapshots hosts) (s : DefaultScheduler) (reqs : List ContainerRequirements) (i : ℕ)

/-- What a batch has come to when the turn of its `i`-th container comes. -/
def batchAt : BatchState := (reqs.take i).foldl (batchStep P hosts) ⟨s, snapshots, []⟩

theorem batchAt_opts : (batchAt P snapshots hosts s reqs i).sched.opts = s.opts :=
  batch_induction P (motive := fun b => b.sched.opts = s.opts) rfl fun b _ hb req _ => by
    rw [batchStep_opts, hb]

/-- **A batch decides in turn**, each container from what the earlier ones left. -/
theorem scheduleBatch_getElem? : (scheduleBatch P s snapshots hosts reqs).1.decisions[i]? =
    reqs[i]?.map fun req => (schedule P (batchAt P snapshots hosts s reqs i).sched
      (batchAt P snapshots hosts s reqs i).working hosts req).1 := by
  rw [scheduleBatch_decisions]
  induction reqs using reverseRecOn with
  | nil => simp
  | append_singleton reqs req ih =>
    have hlength := congrArg length (scheduleBatch_requirements P s snapshots hosts reqs)
    rw [scheduleBatch_decisions, length_map] at hlength
    have hlast : ((reqs ++ [req]).foldl (batchStep P hosts) ⟨s, snapshots, []⟩).decisions =
        (reqs.foldl (batchStep P hosts) ⟨s, snapshots, []⟩).decisions ++
          [(schedule P (reqs.foldl (batchStep P hosts) ⟨s, snapshots, []⟩).sched
            (reqs.foldl (batchStep P hosts) ⟨s, snapshots, []⟩).working hosts req).1] := by
      rw [foldl_append]
      rfl
    rw [hlast]
    rcases lt_trichotomy i reqs.length with hlt | rfl | hgt
    · rw [getElem?_append_left (by omega), ih, getElem?_append_left hlt, batchAt, batchAt,
        take_append_of_le_length hlt.le]
    · rw [batchAt, take_left, getElem?_append_right hlength.le, getElem?_append_right le_rfl,
        hlength]
      simp
    · rw [getElem?_eq_none (by simp; omega), getElem?_eq_none (by simp; omega)]
      rfl

end Turns

end Containers.Scheduler
