import Containers.Scheduler.Scorer

/-!
# The six placement strategies

`pkg/scheduler/strategies.go`. Each strategy collects candidate hosts and selects one of them; they
differ in who is a candidate and in what is best.

| strategy | candidates | selection | best first | |---|---|---|---| | `resource_aware` | probed,
labelled, fitting; local too | sort | highest score | | `round_robin` | labelled (and probed, when
remote) | rotation | – | | `affinity` | probed, labelled, fitting; remote only | running best |
highest score | | `spread` | labelled (and probed, when remote) | sort | fewest containers | |
`bin_pack` | probed, labelled, fitting; local too | sort | highest use | | `gpu_affinity` | every
snapshot that fits and has a GPU | running best | highest score |

Ties go to the local host first and then to the smallest name, or to the smallest name alone where
the local host has no say. The comparisons are stated as the source writes them and shown to be the
order of a key (`Go.ByKey`), which is what makes the selections of `Go.Platform` speak about them.
-/

namespace Containers.Scheduler

open Go Remote

/-- `labelsMatch`: every required label is what the host's map reads under its
key. An absent key reads as the empty string. -/
def labelsMatch (hostLabels requiredLabels : Labels) : Bool :=
  requiredLabels.entries.all fun e => hostLabels.index "" e.1 = e.2

/-- A host with the value it is selected by: its score, or for `bin_pack` how much
of it is used. -/
@[ext]
structure HostScore where
  name : String
  score : ℚ
  deriving DecidableEq

/-! ### Candidates -/

section Candidates

variable (P : Platform) (opts : Options) (snapshots : Snapshots) (hosts : List RemoteHost)
  (req : ContainerRequirements)

/-- The test the resource-based loops share: the snapshot of a host that was
probed, carries the required labels and fits the container. -/
def fitting (name : String) (labels : Labels) : Option HostResources :=
  match snapshots.lookup name with
  | none => none
  | some snap => if labelsMatch labels req.labels && canFit P opts snap req then snap else none

/-- The remote hosts that pass the test, each with the value `value` gives its
snapshot. -/
def remoteCandidates (value : HostResources → ℚ) : List HostScore :=
  hosts.filterMap fun h =>
    (fitting P opts snapshots req h.name h.labels).map fun r => ⟨h.name, value r⟩

/-- The local host if it passes the test – it carries no labels – followed by the
remote hosts that do. -/
def candidates (value : HostResources → ℚ) : List HostScore :=
  ((fitting P opts snapshots req opts.localHostName ∅).map fun r =>
    (⟨opts.localHostName, value r⟩ : HostScore)).toList ++
  remoteCandidates P opts snapshots hosts req value

/-- The names the resource-agnostic strategies choose from: the local host for a
request without labels, and the remote hosts that carry them. -/
def allNames : List String :=
  (if labelsMatch ∅ req.labels then [opts.localHostName] else []) ++
    (hosts.filter fun h => labelsMatch h.labels req.labels).map (·.name)

/-- `hostsPresentInSnapshots`: the remote hosts that produced a snapshot this
cycle. -/
def hostsPresentInSnapshots : List RemoteHost := hosts.filter fun h => h.name ∈ snapshots

end Candidates

/-! ### Comparisons -/

/-- The tie-break of the sorting strategies: the local host first, then by
name. -/
def tieLess (localName a b : String) : Bool :=
  if decide (a = localName) ≠ decide (b = localName) then a = localName else a < b

/-- `scheduleResourceAware`'s comparison, and `scheduleBinPack`'s: the higher value
first. -/
def scoreLess (localName : String) (a b : HostScore) : Bool :=
  if a.score ≠ b.score then a.score > b.score else tieLess localName a.name b.name

/-- `scheduleSpread`'s comparison: the fewest containers first. -/
def spreadLess (localName : String) (existing : String → ℤ) (a b : String) : Bool :=
  if existing a ≠ existing b then existing a < existing b else tieLess localName a b

/-- The replacement test of `scheduleAffinity`'s loop, and of `pickGPUAffinity`'s:
a higher score, or the same under a smaller name. -/
def affinityLess (a b : HostScore) : Bool :=
  a.score > b.score || (a.score = b.score && a.name < b.name)

/-! ### The strategies -/

section Strategies

variable (P : Platform) (opts : Options) (snapshots : Snapshots) (hosts : List RemoteHost)
  (req : ContainerRequirements)

/-- **`resource_aware`**: the host with the highest score, or the local host when
the request prefers it and it is a candidate. -/
def scheduleResourceAware : PlacementDecision :=
  let cands := candidates P opts snapshots hosts req fun r => score P opts (some r) req
  match if req.preferLocal then cands.find? (·.name = opts.localHostName) else none with
  | some c =>
    { requirement := req, hostName := c.name, score := c.score,
      reason := "preferred local placement" }
  | none =>
    match P.firstOf (scoreLess opts.localHostName) cands with
    | none => { requirement := req, score := 0, reason := "no host has sufficient resources" }
    | some best =>
      { requirement := req, hostName := best.name, score := best.score,
        reason := "best resource score " ++ fixed 3 best.score }

/-- **`round_robin`**: the next host in rotation, with the counter it leaves
behind. The counter is a 64-bit word. -/
def scheduleRoundRobin (counter : UInt64) : PlacementDecision × UInt64 :=
  match allNames opts hosts req with
  | [] => ({ requirement := req, score := 0, reason := "no eligible hosts" }, counter)
  | a :: rest =>
    let idx := counter + 1 - 1
    have hlt : idx.toNat % (a :: rest).length < (a :: rest).length :=
      Nat.mod_lt _ (by simp)
    ({ requirement := req, hostName := (a :: rest).get ⟨_, hlt⟩,
       score := 1 / ((a :: rest).length : ℚ),
       reason := "round-robin index " ++ toString idx.toNat }, counter + 1)

/-- **`affinity`**: the label-matching remote host with the highest score. -/
def scheduleAffinity : PlacementDecision :=
  match runningBest affinityLess
      (remoteCandidates P opts snapshots hosts req fun r => score P opts (some r) req) with
  | none => { requirement := req, score := 0, reason := "no host matches affinity labels" }
  | some best =>
    { requirement := req, hostName := best.name, score := best.score,
      reason := "affinity label match" }

/-- **`spread`**: the host with the fewest containers. -/
def scheduleSpread (existing : String → ℤ) : PlacementDecision :=
  match P.firstOf (spreadLess opts.localHostName existing) (allNames opts hosts req) with
  | none => { requirement := req, score := 0, reason := "no eligible hosts" }
  | some selected =>
    { requirement := req, hostName := selected, score := 0.5,
      reason := "spread: fewest containers (" ++ toString (existing selected) ++ ")" }

/-- **`bin_pack`**: the most used host that still fits. -/
def scheduleBinPack : PlacementDecision :=
  match P.firstOf (scoreLess opts.localHostName)
      (candidates P opts snapshots hosts req fun r => r.cpuPercent + r.memoryPercent) with
  | none => { requirement := req, score := 0, reason := "no host can fit container" }
  | some selected =>
    { requirement := req, hostName := selected.name, score := 0.5,
      reason := "bin-pack: most utilized host (" ++ fixed 1 (selected.score / 2) ++ "%)" }

/-- One turn of `pickGPUAffinity`'s loop. -/
def gpuAffinityStep (best : HostScore) (e : Σ _ : String, Option HostResources) : HostScore :=
  if !canFit P opts e.2 req || !(e.2.any (·.hasGPU)) then best
  else if affinityLess ⟨e.1, score P opts e.2 req⟩ best then ⟨e.1, score P opts e.2 req⟩
  else best

/-- **`pickGPUAffinity`**: the highest-scoring host that fits and has a GPU, with
the reason for it. The best score starts below every score, and the loop walks the
snapshots in map order. -/
def pickGPUAffinity : String × String :=
  let best := snapshots.entries.foldl (gpuAffinityStep P opts req) ⟨"", -1⟩
  if best.name = "" then ("", "gpu_affinity: no host fits GPU requirement")
  else (best.name,
    "gpu_affinity: selected " ++ best.name ++ " with score " ++ fixed 3 best.score)

end Strategies

/-! ### The comparisons are orders of keys -/

def tieKey (localName name : String) : Bool ×ₗ String :=
  toLex (decide (name ≠ localName), name)

/-- The key of `scoreLess`. -/
def scoreKey (localName : String) (a : HostScore) : ℚᵒᵈ ×ₗ (Bool ×ₗ String) :=
  toLex (OrderDual.toDual a.score, tieKey localName a.name)

/-- The key of `spreadLess`. -/
def spreadKey (localName : String) (existing : String → ℤ) (a : String) :
    ℤ ×ₗ (Bool ×ₗ String) :=
  toLex (existing a, tieKey localName a)

/-- The key of `affinityLess`. -/
def affinityKey (a : HostScore) : ℚᵒᵈ ×ₗ String := toLex (OrderDual.toDual a.score, a.name)

theorem byKey_tieLess (localName : String) : ByKey (tieLess localName) (tieKey localName) := by
  intro a b
  rw [tieKey, tieKey, Prod.Lex.toLex_lt_toLex, tieLess]
  by_cases ha : a = localName <;> by_cases hb : b = localName <;> simp [ha, hb]

/-- A comparison by a value, ties broken by a second comparison, is the
lexicographic order of the two keys. -/
theorem byKey_lex {α V κ : Type} [LinearOrder V] [LinearOrder κ] {tie : α → α → Bool}
    {tkey : α → κ} (h : ByKey tie tkey) (v : α → V) :
    ByKey (fun a b => if v a ≠ v b then decide (v a < v b) else tie a b)
      fun a => toLex (v a, tkey a) := by
  intro a b
  rw [Prod.Lex.toLex_lt_toLex]
  by_cases hv : v a = v b
  · simp [hv, h a b]
  · simp [hv]

theorem byKey_scoreLess (localName : String) :
    ByKey (scoreLess localName) (scoreKey localName) := by
  have htie : ByKey (fun a b : HostScore => tieLess localName a.name b.name)
      fun a => tieKey localName a.name :=
    fun a b => byKey_tieLess localName a.name b.name
  exact byKey_lex htie fun a => OrderDual.toDual a.score

theorem byKey_spreadLess (localName : String) (existing : String → ℤ) :
    ByKey (spreadLess localName existing) (spreadKey localName existing) :=
  byKey_lex (byKey_tieLess localName) existing

theorem byKey_affinityLess : ByKey affinityLess affinityKey := by
  intro a b
  rw [affinityKey, affinityKey, Prod.Lex.toLex_lt_toLex, affinityLess]
  simp

end Containers.Scheduler
