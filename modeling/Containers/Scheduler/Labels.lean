import Containers.Scheduler.Candidates

/-!
# Where the required labels hold

A requirement may ask for labels, and a placement honours them when the host it names carries every
one – or, on the local host, which carries none, when there are none to ask for (`LabelsHold`).

The strategies do not all guarantee it. `gpu_affinity` selects from the snapshots and never reads a
label; and `labelsMatch` reads an absent key as the empty string, so a label required with an empty
value is matched by a host that has no such label. Nothing else goes wrong
(`schedule_labelsHold_iff`): labels hold where a container is placed unless a host without them
passes the test of the strategy, and with these two exceptions none does.
-/

namespace Containers.Scheduler

open Go Remote List GoMap

variable {hosts : List RemoteHost} {s : DefaultScheduler}

/-! ### Labels carried and labels matched -/

/-- A host with the labels `hostLabels` has every required one. -/
def Carries (hostLabels required : Labels) : Prop :=
  ∀ k v, required.lookup k = some v → hostLabels.lookup k = some v

/-- The labels of a requirement hold on a host: a remote one that carries them, or the
local one when there are none. -/
def HoldsAt (localName : String) (hosts : List RemoteHost) (req : ContainerRequirements)
    (name : String) : Prop :=
  (name = localName → req.labels = ∅) ∧
    (name ≠ localName →
      req.labels = ∅ ∨ ∃ h ∈ hosts, h.name = name ∧ Carries h.labels req.labels)

/-- **The labels of a requirement hold where a decision places it.** -/
def LabelsHold (localName : String) (hosts : List RemoteHost) (req : ContainerRequirements)
    (d : PlacementDecision) : Prop :=
  d.hostName ≠ "" → HoldsAt localName hosts req d.hostName

def ValuesNonempty (required : Labels) : Prop := ∀ k v, required.lookup k = some v → v ≠ ""

variable {hostLabels required : Labels}

theorem labels_eq_empty_iff : required = ∅ ↔ ∀ k v, required.lookup k ≠ some v := by
  constructor
  · rintro rfl k v
    simp
  · intro h
    refine AList.ext (eq_nil_iff_forall_not_mem.mpr fun e he => ?_)
    exact h e.1 e.2 (lookup_of_mem_entries he)

theorem labelsMatch_iff :
    labelsMatch hostLabels required = true ↔
      ∀ k v, required.lookup k = some v → hostLabels.index "" k = v := by
  simp only [labelsMatch, all_eq_true, decide_eq_true_eq]
  exact ⟨fun h k v hkv => h ⟨k, v⟩ (mem_entries_of_lookup hkv),
    fun h e he => h e.1 e.2 (lookup_of_mem_entries he)⟩

/-- **Matching is carrying, for labels with a value**: only the empty string can be
read where there is nothing. -/
theorem carries_of_labelsMatch (hv : ValuesNonempty required)
    (h : labelsMatch hostLabels required = true) : Carries hostLabels required := by
  intro k v hkv
  have hindex := labelsMatch_iff.mp h k v hkv
  rw [index] at hindex
  cases hl : hostLabels.lookup k with
  | none =>
    -- the read of an absent key gives the empty string, which `v` is not
    rw [hl] at hindex
    exact absurd hindex.symm (hv k v hkv)
  | some w =>
    rw [hl, Option.getD_some] at hindex
    rw [hindex]

theorem eq_empty_of_labelsMatch_empty (hv : ValuesNonempty required)
    (h : labelsMatch ∅ required = true) : required = ∅ :=
  labels_eq_empty_iff.mpr fun k v => by simpa using carries_of_labelsMatch hv h k v

/-! ### Where labels hold -/

section Guarantee

variable {P : Platform} {opts : Options} {snapshots : Snapshots} {hosts : List RemoteHost}
  {req : ContainerRequirements} {name : String}

/-- **A candidate of a strategy that reads labels matches them.** -/
theorem Candidate.labelsMatch (hs : opts.strategy ≠ .gpuAffinity)
    (h : Candidate P opts snapshots hosts req name) :
    (name = opts.localHostName ∧ Scheduler.labelsMatch ∅ req.labels = true) ∨
      ∃ h ∈ hosts, h.name = name ∧ Scheduler.labelsMatch h.labels req.labels = true := by
  rw [Candidate] at h
  cases hstrategy : opts.strategy with
  | resourceAware | binPack =>
    rw [hstrategy] at h
    rcases h with ⟨hn, hm, -⟩ | ⟨h, hh, hn, hm, -⟩
    · exact .inl ⟨hn, hm⟩
    · exact .inr ⟨h, hh, hn, hm⟩
  | roundRobin | spread =>
    rw [hstrategy] at h
    rcases h with hlocal | ⟨h, hh, hn, -, hm⟩
    · exact .inl hlocal
    · exact .inr ⟨h, hh, hn, hm⟩
  | affinity =>
    rw [hstrategy] at h
    obtain ⟨h, hh, hn, hm, -⟩ := h
    exact .inr ⟨h, hh, hn, hm⟩
  | gpuAffinity => exact absurd hstrategy hs

theorem Candidate.holdsAt (hs : opts.strategy ≠ .gpuAffinity) (hv : ValuesNonempty req.labels)
    (hhosts : ∀ h ∈ hosts, h.name ≠ opts.localHostName)
    (h : Candidate P opts snapshots hosts req name) :
    HoldsAt opts.localHostName hosts req name := by
  rcases h.labelsMatch hs with ⟨hlocal, hm⟩ | ⟨h, hh, hn, hm⟩
  · -- the local host is matched against no labels at all
    have hempty := eq_empty_of_labelsMatch_empty hv hm
    exact ⟨fun _ => hempty, fun _ => .inl hempty⟩
  · exact ⟨fun hlocal => absurd (hn.trans hlocal) (hhosts h hh),
      fun _ => .inr ⟨h, hh, hn, carries_of_labelsMatch hv hm⟩⟩

end Guarantee

/-- **When labels hold where a container is placed**: if they hold on every host that
passes the test of the strategy, and, where one host alone passes it, only if. They hold
on all of these when none is required, or, under a strategy other than `gpu_affinity`,
when all have a value. -/
theorem schedule_labelsHold_iff (P : Platform) (s : DefaultScheduler) (snapshots : Snapshots)
    (hosts : List RemoteHost) (req : ContainerRequirements)
    (hhosts : ∀ h ∈ hosts, h.name ≠ s.opts.localHostName) :
    ((∀ name, name ≠ "" → Candidate P s.opts snapshots hosts req name →
        HoldsAt s.opts.localHostName hosts req name) →
      LabelsHold s.opts.localHostName hosts req (schedule P s snapshots hosts req).1) ∧
    ((∀ x y, Candidate P s.opts snapshots hosts req x →
        Candidate P s.opts snapshots hosts req y → x = y) →
      LabelsHold s.opts.localHostName hosts req (schedule P s snapshots hosts req).1 →
        ∀ name, name ≠ "" → Candidate P s.opts snapshots hosts req name →
          HoldsAt s.opts.localHostName hosts req name) ∧
    (req.labels = ∅ ∨ s.opts.strategy ≠ .gpuAffinity ∧ ValuesNonempty req.labels →
      ∀ name, Candidate P s.opts snapshots hosts req name →
        HoldsAt s.opts.localHostName hosts req name) := by
  refine ⟨fun hall hname => hall _ hname (candidate_of_scheduleOne hname), ?_, ?_⟩
  · intro hsole hhold name hname hcandidate
    have hselected := hostName_of_sole_candidate hcandidate fun x hx => hsole x name hx hcandidate
    rw [LabelsHold, hselected] at hhold
    exact hhold hname
  · rintro (hempty | ⟨hs, hv⟩) name hcandidate
    · exact ⟨fun _ => hempty, fun _ => .inl hempty⟩
    · exact hcandidate.holdsAt hs hv hhosts

def gpuHost : HostResources :=
  { cpuCores := 8, memoryTotalMB := 16384, diskTotalMB := 500000, gpu := [{ vendor := "nvidia" }] }

/-- Of two hosts that it fits on, a container that must run in the zone `eu` goes to the one that
is there. -/
theorem schedule_labelsHold_zone :
    let hosts : List RemoteHost :=
    [{ name := "g1" }, { name := "g2", labels := ofList [("zone", "eu")] }]
    let req : ContainerRequirements := { name := "web", labels := ofList [("zone", "eu")] }
    let decision := (schedule Platform.reference (newScheduler {})
      (ofList [("g1", some gpuHost), ("g2", some gpuHost)]) hosts req).1
    decision.hostName = "g2" ∧ LabelsHold "local" hosts req decision := by
  intro hosts req decision
  have hthm := schedule_labelsHold_iff Platform.reference (newScheduler {})
    (ofList [("g1", some gpuHost), ("g2", some gpuHost)]) hosts req (by decide +kernel)
  have hvalues : ValuesNonempty req.labels := by
    intro k v hkv hempty
    have hmem : (⟨k, v⟩ : Σ _ : String, String) ∈ [⟨"zone", "eu"⟩] := mem_entries_of_lookup hkv
    cases mem_singleton.mp hmem
    exact absurd hempty (by decide)
  exact ⟨by decide +kernel, hthm.1 fun name _ => hthm.2.2 (.inr ⟨by decide, hvalues⟩) name⟩

/-- **`gpu_affinity` places a container that must run in the zone `eu` on a host
without labels.** -/
theorem not_labelsHold_gpuAffinity :
    ¬LabelsHold "local" [{ name := "g1" }]
      { name := "train", labels := GoMap.ofList [("zone", "eu")], gpu := some {} }
      (schedule Platform.reference (newScheduler { strategy := .gpuAffinity })
        (GoMap.ofList [("g1", some gpuHost)]) [{ name := "g1" }]
        { name := "train", labels := GoMap.ofList [("zone", "eu")], gpu := some {} }).1 := by
  have hname : (schedule Platform.reference (newScheduler { strategy := .gpuAffinity })
      (ofList [("g1", some gpuHost)]) [{ name := "g1" }]
      { name := "train", labels := ofList [("zone", "eu")], gpu := some {} }).1.hostName =
      "g1" := by decide +kernel
  intro hhold
  rw [LabelsHold, hname] at hhold
  rcases (hhold (by decide)).2 (by decide) with hempty | ⟨h, hh, -, hc⟩
  · exact labels_eq_empty_iff.mp hempty "zone" "eu" rfl
  · rw [mem_singleton.mp hh] at hc
    exact absurd (hc "zone" "eu" rfl) (by decide)

end Containers.Scheduler
