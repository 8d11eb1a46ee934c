import Containers.Scheduler.Candidates
import Mathlib.Data.Finset.Card
import Mathlib.Data.Finset.Image

/-!
# A batch never hands out a GPU twice

A physical GPU is a host and a position in the device list of that host's original snapshot. The
working snapshots shrink as containers are placed, so the positions move; the proof follows the
devices by carrying, next to each working list, the original position of every device still in it
(`Inventory`). A placed GPU requirement is given the devices `deductGPU` drops for it: they match,
there are as many as it asked for because the container fitted, and from then on they are in no
working list.
-/

namespace Containers.Scheduler

open Go Remote Function List

variable {drop : List ℕ} {g : GPURequirement} {x : String × ℕ} {P : Platform} {h : String}
  {gpus : List GPUDevice} {req : GPURequirement} {r : HostResources}

/-! ### What `deductGPU` drops -/

theorem map_idx_cand_sublist (gpus : List GPUDevice) (req : GPURequirement) :
    (((gpus.zipIdx.filter fun g => gpuMatchesReq g.1 req).map fun g =>
      (⟨g.2, g.1.vramFreeMB⟩ : GPUIdx)).map (·.idx)).Sublist (range gpus.length) := by
  rw [map_map]
  have h := (filter_sublist (l := gpus.zipIdx) (p := fun g => gpuMatchesReq g.1 req)).map
    Prod.snd
  rwa [zipIdx_map_snd, ← range_eq_range'] at h

theorem nodup_droppedGPUs (gpus : List GPUDevice) (req : GPURequirement) :
    (droppedGPUs P gpus req).Nodup := by
  simp only [droppedGPUs, map_take]
  refine Nodup.sublist (take_sublist _ _) ?_
  rw [((P.sortSlice_perm _ _).map GPUIdx.idx).nodup_iff]
  exact nodup_range.sublist (map_idx_cand_sublist gpus req)

theorem getElem?_of_mem_droppedGPUs {i : ℕ} (h : i ∈ droppedGPUs P gpus req) :
    ∃ g, gpus[i]? = some g ∧ gpuMatchesReq g req = true := by
  simp only [droppedGPUs, mem_map] at h
  obtain ⟨c, hc, rfl⟩ := h
  have hmem := (P.sortSlice_perm _ _).mem_iff.mp (mem_of_mem_take hc)
  obtain ⟨g, hg, rfl⟩ := mem_map.mp hmem
  obtain ⟨hg, hmatch⟩ := mem_filter.mp hg
  exact ⟨g.1, mem_zipIdx_iff_getElem?.mp hg, hmatch⟩

/-- **As many devices are dropped as the requirement needs**, when there are as many
that match. -/
theorem length_droppedGPUs
    (h : gpuNeed req ≤ (matchingGPUs gpus req).length) :
    (droppedGPUs P gpus req).length = (gpuNeed req).toNat := by
  have hcount : (gpus.zipIdx.filter fun g => gpuMatchesReq g.1 req).length =
      (matchingGPUs gpus req).length := by
    have hmap : (gpus.zipIdx.filter fun g => gpuMatchesReq g.1 req).map Prod.fst =
        gpus.filter (gpuMatchesReq · req) := by
      nth_rewrite 2 [← zipIdx_map_fst 0 gpus]
      rw [filter_map]
      rfl
    rw [matchingGPUs, ← hmap, length_map]
  simp only [droppedGPUs, length_map, length_take, (P.sortSlice_perm _ _).length_eq]
  omega

theorem deductCapacity_gpu (r : HostResources) (req : ContainerRequirements) :
    (deductCapacity P r req).gpu =
      req.gpu.elim r.gpu fun g => dropIdx (droppedGPUs P r.gpu g) r.gpu := by
  rw [deductCapacity_eq]

/-! ### The inventory -/

/-- **A decision has been given the GPUs `given`**: if it places a container that
needs GPUs, they are as many as it needs, on its own host, and each is a device of
the original snapshot that satisfies the requirement. -/
def Served (snapshots : Snapshots) (d : PlacementDecision) (given : Finset (String × ℕ)) : Prop :=
  ∀ g, d.hostName ≠ "" → d.requirement.gpu = some g →
    given.card = (max 1 g.count).toNat ∧
    ∀ x ∈ given, x.1 = d.hostName ∧ ∃ r dev, snapshots.lookup x.1 = some (some r) ∧
      r.gpu[x.2]? = some dev ∧ gpuMatchesReq dev g = true

/-- **The inventory of a batch**: `stock` lists the devices left on each host with
their original positions, `given` the devices each decision took. -/
structure Inventory (snapshots : Snapshots) (b : BatchState)
    (stock : String → List (GPUDevice × ℕ)) (given : ℕ → Finset (String × ℕ)) : Prop where
  working : ∀ h r, b.working.lookup h = some (some r) → r.gpu = (stock h).map (·.1)
  original : ∀ h, ∀ x ∈ stock h, ∃ r, snapshots.lookup h = some (some r) ∧ r.gpu[x.2]? = some x.1
  nodup : ∀ h, ((stock h).map (·.2)).Nodup
  taken : ∀ k, ∀ x ∈ given k, x.2 ∉ (stock x.1).map (·.2)
  disjoint : ∀ j k, j ≠ k → Disjoint (given j) (given k)
  unused : ∀ k, b.decisions.length ≤ k → given k = ∅
  served : ∀ k d, b.decisions[k]? = some d → Served snapshots d (given k)

theorem inventory_initial (snapshots : Snapshots) (s : DefaultScheduler) :
    Inventory snapshots ⟨s, snapshots, []⟩
      (fun h => match snapshots.lookup h with
        | some (some r) => r.gpu.zipIdx
        | _ => [])
      fun _ => ∅ where
  working h r hr := by
    have hr' : snapshots.lookup h = some (some r) := hr
    simp only [hr', zipIdx_map_fst]
  original h x hx := by
    split at hx
    · next r hr => exact ⟨r, hr, mem_zipIdx_iff_getElem?.mp hx⟩
    · simp at hx
  nodup h := by
    split
    · rw [zipIdx_map_snd, ← range_eq_range']
      exact nodup_range
    · simp
  taken k x hx := by simp at hx
  disjoint j k _ := by simp
  unused k _ := rfl
  served k d hd := by simp at hd

section Step

variable {snapshots : Snapshots} {b : BatchState} {stock : String → List (GPUDevice × ℕ)}
  {given : ℕ → Finset (String × ℕ)} {d : PlacementDecision} {working : Snapshots}
  {s : DefaultScheduler}

theorem served_append {ds : List PlacementDecision} (hnew : Served snapshots d (given ds.length))
    (hds : ∀ k e, ds[k]? = some e → Served snapshots e (given k)) :
    ∀ k e, (ds ++ [d])[k]? = some e → Served snapshots e (given k) := by
  intro k e he
  rcases lt_trichotomy k ds.length with hk | rfl | hk
  · rw [getElem?_append_left hk] at he
    exact hds k e he
  · rw [getElem?_concat_length, Option.some_inj] at he
    exact he ▸ hnew
  · rw [getElem?_eq_none (by simp; omega)] at he
    exact absurd he (by simp)

/-- The working snapshots list what is in stock, after a deduction that leaves `left` on the
chosen host. -/
theorem gpu_of_lookup_deductAt (left : List (GPUDevice × ℕ))
    (hwork : ∀ h r, working.lookup h = some (some r) → r.gpu = (stock h).map (·.1))
    (hr : working.lookup d.hostName = some (some r))
    (hleft : (deductCapacity P r d.requirement).gpu = left.map (·.1)) (h : String)
    (r' : HostResources)
    (hr' : (deductAt P working d.hostName d.requirement).lookup h = some (some r')) :
    r'.gpu = (update stock d.hostName left h).map (·.1) := by
  by_cases hh : h = d.hostName
  · subst hh
    rw [lookup_deductAt_self P hr, Option.some_inj, Option.some_inj] at hr'
    rw [← hr', hleft, update_self]
  · rw [lookup_deductAt_of_ne P hh] at hr'
    rw [update_of_ne hh]
    exact hwork h r' hr'

theorem Inventory.append (hi : Inventory snapshots b stock given)
    (hwork : ∀ h r, working.lookup h = some (some r) → r.gpu = (stock h).map (·.1))
    (hd : d.hostName = "" ∨ d.requirement.gpu = none) :
    Inventory snapshots ⟨s, working, b.decisions ++ [d]⟩ stock given where
  working := hwork
  original := hi.original
  nodup := hi.nodup
  taken := hi.taken
  disjoint := hi.disjoint
  unused k hk := by
    rw [length_append] at hk
    exact hi.unused k (by omega)
  served := by
    refine served_append (fun g hname hg => ?_) hi.served
    rcases hd with hd | hd
    · exact absurd hd hname
    · rw [hd] at hg
      exact absurd hg (by simp)

/-- The devices that leave the stock of `h` when the positions in `drop` do. -/
def takenFrom (h : String) (stock : List (GPUDevice × ℕ)) (drop : List ℕ) :
    Finset (String × ℕ) :=
  (drop.filterMap fun i => stock[i]?.map fun x => (h, x.2)).toFinset

theorem mem_takenFrom {stock : List (GPUDevice × ℕ)} :
    x ∈ takenFrom h stock drop ↔ ∃ i ∈ drop, ∃ y, stock[i]? = some y ∧ x = (h, y.2) := by
  simp only [takenFrom, mem_toFinset, mem_filterMap, Option.map_eq_some_iff,
    @eq_comm (String × ℕ) x]

/-- **As many devices leave as positions are dropped**: the positions are distinct,
in range, and no two of them hold the same device. -/
theorem card_takenFrom {stock : List (GPUDevice × ℕ)} (hstock : (stock.map (·.2)).Nodup)
    (hdrop : drop.Nodup) (hlt : ∀ i ∈ drop, i < stock.length) :
    (takenFrom h stock drop).card = drop.length := by
  have hform : (drop.filterMap fun i => stock[i]?.map fun x => (h, x.2)) =
      drop.map fun i => (h, (stock.map (·.2))[i]?.getD 0) := by
    rw [← filterMap_eq_map]
    refine filterMap_congr fun i hi => ?_
    have hlen := hlt i hi
    simp [getElem?_eq_getElem hlen]
  rw [takenFrom, hform, toFinset_card_of_nodup, length_map]
  refine hdrop.map_on fun i hi j hj hij => ?_
  have hi' : i < (stock.map (·.2)).length := by simpa using hlt i hi
  have hj' : j < (stock.map (·.2)).length := by simpa using hlt j hj
  rw [getElem?_eq_getElem hi', getElem?_eq_getElem hj'] at hij
  have hsnd : (stock.map (·.2))[i] = (stock.map (·.2))[j] := congrArg Prod.snd hij
  exact hstock.getElem_inj_iff.mp hsnd

theorem mem_stock_of_mem_takenFrom {stock : List (GPUDevice × ℕ)}
    (hx : x ∈ takenFrom h stock drop) : x.1 = h ∧ x.2 ∈ stock.map (·.2) := by
  obtain ⟨i, -, y, hy, rfl⟩ := mem_takenFrom.mp hx
  exact ⟨rfl, mem_map_of_mem (mem_of_getElem? hy)⟩

theorem notMem_dropIdx_of_mem_takenFrom {stock : List (GPUDevice × ℕ)}
    (hstock : (stock.map (·.2)).Nodup) (hx : x ∈ takenFrom h stock drop) :
    x.2 ∉ (dropIdx drop stock).map (·.2) := by
  obtain ⟨i, hi, y, hy, rfl⟩ := mem_takenFrom.mp hx
  intro hstays
  obtain ⟨z, hz, hzy⟩ := mem_map.mp hstays
  obtain ⟨j, hj, hjz⟩ := mem_dropIdx.mp hz
  have hget : (stock.map (·.2))[i]? = (stock.map (·.2))[j]? := by
    rw [getElem?_map, getElem?_map, hy, hjz, Option.map_some, Option.map_some, hzy]
  have hlen : i < (stock.map (·.2)).length := by
    obtain ⟨hlen, -⟩ := List.getElem?_eq_some_iff.mp hy
    rwa [length_map]
  exact hj ((getElem?_inj hlen hstock).mp hget ▸ hi)

theorem lt_of_mem_droppedGPUs {stock : List (GPUDevice × ℕ)} {i : ℕ}
    (h : i ∈ droppedGPUs P (stock.map (·.1)) g) : i < stock.length := by
  obtain ⟨dev, hdev, -⟩ := getElem?_of_mem_droppedGPUs h
  obtain ⟨hlen, -⟩ := List.getElem?_eq_some_iff.mp hdev
  rwa [length_map] at hlen

/-- **The devices a requirement drops serve it**, when as many match as it needs. -/
theorem Inventory.served_takenFrom (hi : Inventory snapshots b stock given)
    (hg : d.requirement.gpu = some g)
    (hneed : gpuNeed g ≤ (matchingGPUs ((stock d.hostName).map (·.1)) g).length) :
    Served snapshots d (takenFrom d.hostName (stock d.hostName)
      (droppedGPUs P ((stock d.hostName).map (·.1)) g)) := by
  intro g' _ hg'
  obtain rfl : g = g' := Option.some_inj.mp (hg.symm.trans hg')
  refine ⟨?_, fun x hx => ?_⟩
  · rw [card_takenFrom (hi.nodup _) (nodup_droppedGPUs _ _) fun i => lt_of_mem_droppedGPUs,
      length_droppedGPUs hneed, gpuNeed_eq_max]
  · obtain ⟨i, hmem, y, hy, rfl⟩ := mem_takenFrom.mp hx
    obtain ⟨r₀, hr₀, hdev⟩ := hi.original _ y (mem_of_getElem? hy)
    obtain ⟨dev, hget, hmatch⟩ := getElem?_of_mem_droppedGPUs hmem
    rw [getElem?_map, hy, Option.map_some, Option.some_inj] at hget
    exact ⟨rfl, r₀, y.1, hr₀, hdev, hget ▸ hmatch⟩

theorem disjoint_update {α : Type} [DecidableEq α] {given : ℕ → Finset α} {new : Finset α}
    (hgiven : ∀ j k, j ≠ k → Disjoint (given j) (given k)) (hnew : ∀ k, Disjoint new (given k))
    (n j k : ℕ) (hjk : j ≠ k) :
    Disjoint (update given n new j) (update given n new k) := by
  by_cases hj : j = n
  · subst hj
    rw [update_self, update_of_ne hjk.symm]
    exact hnew k
  · rw [update_of_ne hj]
    by_cases hk : k = n
    · subst hk
      rw [update_self]
      exact (hnew j).symm
    · rw [update_of_ne hk]
      exact hgiven j k hjk

/-- **The step of the inventory**: a placed container that needs GPUs takes the
devices its requirement drops, and they leave the stock of its host. -/
theorem Inventory.place (hi : Inventory snapshots b stock given) (hg : d.requirement.gpu = some g)
    (hr : b.working.lookup d.hostName = some (some r))
    (hneed : gpuNeed g ≤ (matchingGPUs r.gpu g).length) :
    ∃ stock' given', Inventory snapshots
      ⟨s, deductAt P b.working d.hostName d.requirement, b.decisions ++ [d]⟩ stock' given' := by
  have hgpu := hi.working _ _ hr
  obtain ⟨drop, hdrop⟩ : ∃ drop, drop = droppedGPUs P r.gpu g := ⟨_, rfl⟩
  obtain ⟨new, hnew⟩ : ∃ new, new = takenFrom d.hostName (stock d.hostName) drop := ⟨_, rfl⟩
  have hsub : ∀ h, (update stock d.hostName (dropIdx drop (stock d.hostName)) h).Sublist
      (stock h) := by
    intro h
    by_cases hh : h = d.hostName
    · subst hh
      rw [update_self]
      exact dropIdx_sublist _ _
    · rw [update_of_ne hh]
  -- what is taken now is in stock, so no earlier decision has it
  have hfresh : ∀ k, Disjoint new (given k) := by
    intro k
    rw [Finset.disjoint_left, hnew]
    intro x hx hx'
    obtain ⟨hhost, hmem⟩ := mem_stock_of_mem_takenFrom hx
    exact hi.taken k x hx' (hhost ▸ hmem)
  refine ⟨update stock d.hostName (dropIdx drop (stock d.hostName)),
    update given b.decisions.length new, ?_, fun h x hx => hi.original h x
    ((hsub h).subset hx), fun h => (hi.nodup h).sublist ((hsub h).map _), fun k x hx => ?_,
    disjoint_update hi.disjoint hfresh _, fun k hk => ?_, served_append ?_ fun k e he => ?_⟩
  · refine gpu_of_lookup_deductAt _ hi.working hr ?_
    rw [deductCapacity_gpu, hg, Option.elim_some, ← dropIdx_map, ← hgpu, hdrop]
  · by_cases hk : k = b.decisions.length
    · subst hk
      rw [update_self, hnew] at hx
      obtain ⟨hhost, -⟩ := mem_stock_of_mem_takenFrom hx
      rw [hhost, update_self]
      exact notMem_dropIdx_of_mem_takenFrom (hi.nodup _) hx
    · rw [update_of_ne hk] at hx
      exact fun hcon => hi.taken k x hx (((hsub x.1).map _).subset hcon)
  · rw [length_append, length_singleton] at hk
    rw [update_of_ne (by omega)]
    exact hi.unused k (by omega)
  · rw [update_self, hnew, hdrop, hgpu]
    exact hi.served_takenFrom hg (hgpu ▸ hneed)
  · obtain ⟨hk, -⟩ := List.getElem?_eq_some_iff.mp he
    rw [update_of_ne hk.ne]
    exact hi.served k e he

theorem Inventory.step (hi : Inventory snapshots b stock given)
    (hs : ResourceBased b.sched.opts.strategy) (hosts : List RemoteHost)
    (req : ContainerRequirements) :
    ∃ stock' given', Inventory snapshots (batchStep P hosts b req) stock' given' := by
  obtain ⟨d, rfl, hds, ⟨hname, hwork⟩ | ⟨hname, ⟨r, hr, hfit⟩, hwork⟩⟩ :=
    batchStep_cases (P := P) hs hosts req
  · have hb : batchStep P hosts b d.requirement =
        ⟨(batchStep P hosts b d.requirement).sched, b.working, b.decisions ++ [d]⟩ := by
      rw [← hds, ← hwork]
    rw [hb]
    exact ⟨stock, given, hi.append hi.working (.inl hname)⟩
  · have hb : batchStep P hosts b d.requirement =
        ⟨(batchStep P hosts b d.requirement).sched,
          deductAt P b.working d.hostName d.requirement, b.decisions ++ [d]⟩ := by
      rw [← hds, ← hwork]
    rw [hb]
    cases hg : d.requirement.gpu with
    | none =>
      have hkept := gpu_of_lookup_deductAt (P := P) (stock d.hostName) hi.working hr
        (by rw [deductCapacity_gpu, hg]; exact hi.working _ _ hr)
      rw [update_eq_self] at hkept
      exact ⟨stock, given, hi.append hkept (.inr hg)⟩
    | some g =>
      exact hi.place hg hr (((canFit_some_iff P _ r d.requirement).mp hfit).2.2.2 g hg)

end Step

/-- **A batch never hands the same GPU out twice.** Under a resource-based strategy
there is an assignment of devices of the original snapshots to the decisions of one
`ScheduleBatch` in which every placed GPU requirement receives as many devices as it
needs, on its own host and each satisfying it, and no device is assigned twice. -/
theorem scheduleBatch_gpu_exclusive (P : Platform) (s : DefaultScheduler) (snapshots : Snapshots)
    (hosts : List RemoteHost) (reqs : List ContainerRequirements)
    (hstrategy : ResourceBased s.opts.strategy) :
    ∃ given : ℕ → Finset (String × ℕ),
      (∀ k d, (scheduleBatch P s snapshots hosts reqs).1.decisions[k]? = some d →
        Served snapshots d (given k)) ∧
      ∀ j k, j ≠ k → Disjoint (given j) (given k) := by
  rw [scheduleBatch_decisions]
  have hinv : ∃ stock given, Inventory snapshots
      (reqs.foldl (batchStep P hosts) ⟨s, snapshots, []⟩) stock given := by
    refine batch_induction (motive := fun b => ∃ stock given, Inventory snapshots b stock given) P
      ⟨_, _, inventory_initial snapshots s⟩ fun b hopts hb req _ => ?_
    obtain ⟨stock, given, hi⟩ := hb
    exact hi.step (hopts ▸ hstrategy) hosts req
  obtain ⟨stock, given, hi⟩ := hinv
  exact ⟨given, hi.served, hi.disjoint⟩

def oneGPUOnly : Snapshots :=
  GoMap.ofList [("g1", some { gpu := [{ vendor := "nvidia", vramFreeMB := 24000 }] })]

def twoGPUContainers : List ContainerRequirements :=
  [{ name := "gc1", gpu := some { vendor := "nvidia" } },
   { name := "gc2", gpu := some { vendor := "nvidia" } }]

/-- Of two containers that need a GPU, the host that has one gets the first. -/
theorem scheduleBatch_gpu_exclusive_oneGPU :
    let decisions := (scheduleBatch Platform.reference
      (newScheduler { strategy := .gpuAffinity }) oneGPUOnly [] twoGPUContainers).1.decisions
    decisions.map (·.hostName) = ["g1", ""] ∧
    ∃ given : ℕ → Finset (String × ℕ),
      (∀ k d, decisions[k]? = some d → Served oneGPUOnly d (given k)) ∧
      ∀ j k, j ≠ k → Disjoint (given j) (given k) := by
  refine ⟨by decide +kernel, ?_⟩
  exact scheduleBatch_gpu_exclusive Platform.reference (newScheduler { strategy := .gpuAffinity })
    oneGPUOnly [] twoGPUContainers (.inr (.inr (.inr rfl)))

end Containers.Scheduler
