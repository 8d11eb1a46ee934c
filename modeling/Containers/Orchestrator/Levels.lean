import Containers.Lib.Layers
import Containers.Lib.Loops
import Containers.Orchestrator.Types

/-!
# Start levels

`computeStartLevels` orders the services into waves: whatever depends on a name starts after *all*
the services of that name. The source works on indices – a count of open prerequisites per service,
the list of those that wait for it, a flag for those already placed – and takes level by level what
has no open prerequisite, until nothing remains or nothing is free.

What it computes is a layering of the relation `Requires` between services. The invariant of the
loop (`Levelled`) says that the counts are what they stand for, and that after `k` levels the placed
services are those of height less than `k`. With nothing left, that is the level assignment; with
nothing free, every service left requires another one, and that is a cycle.
-/

namespace Containers.Orchestrator

open Go Layers Loops Function List Relation

/-! ### The function -/

/-- `byName`: the indices of the services of each name. -/
def byName (services : List Service) : GoMap String (List ℕ) :=
  services.zipIdx.foldl
    (fun m x => m.insert x.1.name (m.index [] x.1.name ++ [x.2])) ∅

/-- The counts of open prerequisites, and for each service those that depend on it. -/
structure Links where
  indeg : ℕ → ℕ := fun _ => 0
  dependents : ℕ → List ℕ := fun _ => []

/-- Service `i` depends on service `p`. -/
def Links.add (l : Links) (p i : ℕ) : Links where
  indeg := update l.indeg i (l.indeg i + 1)
  dependents := update l.dependents p (l.dependents p ++ [i])

@[simp] theorem Links.add_indeg (l : Links) (p i : ℕ) :
    (l.add p i).indeg = update l.indeg i (l.indeg i + 1) := rfl

@[simp] theorem Links.add_dependents (l : Links) (p i : ℕ) :
    (l.add p i).dependents = update l.dependents p (l.dependents p ++ [i]) := rfl

/-- One dependency of service `i`. -/
def linkDependency (services : List Service) (s : Service) (i : ℕ) (l : Links) (dep : String) :
    Except String Links :=
  match (byName services).lookup dep with
  | none =>
    .error ("service " ++ quoted s.name ++ " depends on unknown service " ++ quoted dep)
  | some prereqs => .ok (prereqs.foldl (fun l p => l.add p i) l)

def linkAll (services : List Service) : Except String Links :=
  services.zipIdx.foldlM
    (fun l x => x.1.dependencies.foldlM (linkDependency services x.1 x.2) l) {}

/-- The indices of the services that are not placed and have no open prerequisite. -/
def freeIndices (services : List Service) (indeg : ℕ → ℕ) (placed : ℕ → Bool) : List ℕ :=
  (range services.length).filter fun i => !placed i && indeg i = 0

/-- The names of the services that are not placed, as they are printed. -/
def unresolved (services : List Service) (placed : ℕ → Bool) : String :=
  "[" ++ " ".intercalate
    (((range services.length).filter fun i => !placed i).filterMap
      fun i => (services[i]?).map (·.name)) ++ "]"

def release (dependents : List ℕ) (indeg : ℕ → ℕ) : ℕ → ℕ :=
  dependents.foldl (fun indeg d => update indeg d (indeg d - 1)) indeg

/-- **The loop**: take the next level, until none remains. -/
def levelsFrom (services : List Service) (dependents : ℕ → List ℕ) (remaining : ℕ)
    (indeg : ℕ → ℕ) (placed : ℕ → Bool) (levels : List (List Service)) :
    Except String (List (List Service)) :=
  if remaining = 0 then .ok levels
  else
    let levelIdx := freeIndices services indeg placed
    if levelIdx = [] then
      .error ("dependency cycle among services: " ++ unresolved services placed)
    else
      levelsFrom services dependents (remaining - levelIdx.length)
        (levelIdx.foldl (fun indeg i => release (dependents i) indeg) indeg)
        (levelIdx.foldl (fun placed i => update placed i true) placed)
        (levels ++ [levelIdx.filterMap fun i => services[i]?])
termination_by remaining
decreasing_by
  have hfree : 0 < (freeIndices services indeg placed).length := length_pos_iff.mpr ‹_›
  exact Nat.sub_lt (Nat.pos_of_ne_zero ‹_›) hfree

/-- **`computeStartLevels`.** -/
def computeStartLevels (services : List Service) : Except String (List (List Service)) :=
  match linkAll services with
  | .error e => .error e
  | .ok links =>
    levelsFrom services links.dependents services.length links.indeg (fun _ => false) []

/-! ### What the links say -/

variable {services : List Service} {s t : Service} {i p remaining : ℕ} {dep : String}
  {indeg : ℕ → ℕ} {placed : ℕ → Bool} {levels : List (List Service)}

def indicesOf (services : List Service) (name : String) : List ℕ :=
  (services.zipIdx.filter fun x => x.1.name = name).map (·.2)

theorem mem_indicesOf : p ∈ indicesOf services dep ↔ ∃ t, services[p]? = some t ∧ t.name = dep := by
  simp only [indicesOf, mem_map, mem_filter, decide_eq_true_eq,
    mem_zipIdx_iff_getElem?]
  constructor
  · rintro ⟨⟨t, q⟩, ⟨hq, ht⟩, rfl⟩
    exact ⟨t, hq, ht⟩
  · rintro ⟨t, hp, ht⟩
    exact ⟨(t, p), ⟨hp, ht⟩, rfl⟩

theorem index_byName (services : List Service) (dep : String) :
    (byName services).index [] dep = indicesOf services dep := by
  rw [byName, GoMap.index_foldl_append]
  rfl

theorem mem_byName : dep ∈ byName services ↔ ∃ s ∈ services, s.name = dep := by
  have hfst : (∃ x ∈ services.zipIdx, x.1.name = dep) ↔
      ∃ s ∈ services.zipIdx.map (·.1), s.name = dep := by
    simp only [mem_map, exists_exists_and_eq_and]
  rw [byName, GoMap.mem_foldl_append, hfst]
  simp

theorem lookup_byName (h : ∃ s ∈ services, s.name = dep) :
    (byName services).lookup dep = some (indicesOf services dep) := by
  obtain ⟨l, hl⟩ := Option.isSome_iff_exists.mp (AList.lookup_isSome.mpr (mem_byName.mpr h))
  rw [← index_byName, GoMap.index, hl]
  rfl

/-- The indices of the prerequisites of a service, as often as they are listed. -/
def prereqs (services : List Service) (s : Service) : List ℕ :=
  s.dependencies.flatMap (indicesOf services)

theorem mem_prereqs :
    p ∈ prereqs services s ↔ ∃ t, services[p]? = some t ∧ t.name ∈ s.dependencies := by
  simp only [prereqs, mem_flatMap, mem_indicesOf]
  constructor
  · rintro ⟨d, hd, t, ht, rfl⟩
    exact ⟨t, ht, hd⟩
  · rintro ⟨t, ht, hd⟩
    exact ⟨_, hd, t, ht, rfl⟩

def Known (services : List Service) : Prop :=
  ∀ s ∈ services, ∀ dep ∈ s.dependencies, ∃ t ∈ services, t.name = dep

def edges (services : List Service) : List (ℕ × ℕ) :=
  services.zipIdx.flatMap fun x => (prereqs services x.1).map (·, x.2)

def linksOf (services : List Service) : Links :=
  (edges services).foldl (fun l e => l.add e.1 e.2) {}

theorem linkAll_of_known (h : Known services) : linkAll services = .ok (linksOf services) := by
  have hdep : ∀ x ∈ services.zipIdx, ∀ l, x.1.dependencies.foldlM
      (linkDependency services x.1 x.2) l =
        .ok (((prereqs services x.1).map (·, x.2)).foldl (fun l e => l.add e.1 e.2) l) := by
    intro x hx l
    have hmem : x.1 ∈ services := fst_mem_of_mem_zipIdx hx
    rw [foldlM_eq_ok (g := fun l dep => (indicesOf services dep).foldl (fun l p => l.add p x.2) l)
      fun dep hd b => by rw [linkDependency, lookup_byName (h x.1 hmem dep hd)], foldl_map,
      prereqs, foldl_flatMap]
  rw [linkAll, foldlM_eq_ok hdep, linksOf, edges, foldl_flatMap]

theorem linkAll_of_not_known (h : ¬Known services) : ∃ e, linkAll services = .error e := by
  simp only [Known, not_forall] at h
  obtain ⟨s, hs, dep, hdep, hnone⟩ := h
  obtain ⟨i, hi⟩ := getElem?_of_mem hs
  have hx : (s, i) ∈ services.zipIdx := mem_zipIdx_iff_getElem?.mpr hi
  have hlookup : (byName services).lookup dep = none := by
    rw [AList.lookup_eq_none, mem_byName]
    exact hnone
  have hone : ∀ l, ∃ e, linkDependency services s i l dep = .error e :=
    fun l => ⟨_, by rw [linkDependency, hlookup]⟩
  exact foldlM_eq_error
    (f := fun l x => x.1.dependencies.foldlM (linkDependency services x.1 x.2) l)
    hx (foldlM_eq_error hdep hone) {}

theorem indeg_foldl_add (E : List (ℕ × ℕ)) (l : Links) (i : ℕ) :
    (E.foldl (fun l e => l.add e.1 e.2) l).indeg i = l.indeg i + E.countP (·.2 = i) := by
  induction E generalizing l with
  | nil => rfl
  | cons e E ih =>
    rw [foldl_cons, ih]
    by_cases he : i = e.2
    · subst he
      simp
      omega
    · simp [he, Ne.symm he]

theorem count_dependents_foldl_add (E : List (ℕ × ℕ)) (l : Links) (p i : ℕ) :
    ((E.foldl (fun l e => l.add e.1 e.2) l).dependents p).count i =
      (l.dependents p).count i + E.count (p, i) := by
  induction E generalizing l with
  | nil => rfl
  | cons e E ih =>
    obtain ⟨q, j⟩ := e
    rw [foldl_cons, ih]
    by_cases hq : p = q
    · subst hq
      by_cases hj : j = i
      · subst hj
        simp
        omega
      · simp [hj]
    · simp [hq, Ne.symm hq]

theorem countP_edges (hi : services[i]? = some s) (q : ℕ → Bool) :
    (edges services).countP (fun e => q e.1 && e.2 = i) = (prereqs services s).countP q := by
  have hone : ∀ x ∈ services.zipIdx,
      ((prereqs services x.1).map (·, x.2)).countP (fun e => q e.1 && e.2 = i) =
        if x.2 = 0 + i then (prereqs services x.1).countP q else 0 := by
    intro x _
    rw [countP_map, Nat.zero_add]
    by_cases hx : x.2 = i
    · rw [if_pos hx]
      exact countP_congr fun p _ => by simp [hx]
    · simp [hx]
  rw [edges, countP_flatMap, ← sum_map_zipIdx (g := fun s => (prereqs services s).countP q) 0 hi]
  exact congrArg sum (map_congr_left hone)

theorem indeg_linksOf (hi : services[i]? = some s) :
    (linksOf services).indeg i = (prereqs services s).length := by
  have hall := countP_edges hi fun _ => true
  simp only [Bool.true_and, countP_true] at hall
  rw [linksOf, indeg_foldl_add, hall, Nat.zero_add]

theorem count_dependents_linksOf (hi : services[i]? = some s) (p : ℕ) :
    ((linksOf services).dependents p).count i = (prereqs services s).count p := by
  have hone := countP_edges hi (· == p)
  rw [linksOf, count_dependents_foldl_add, count_nil, Nat.zero_add, count_eq_countP,
    count_eq_countP, ← hone]
  refine countP_congr fun e _ => ?_
  simp [Prod.ext_iff]

/-! ### Releasing and placing -/

theorem release_apply (ds : List ℕ) (indeg : ℕ → ℕ) (d : ℕ) :
    release ds indeg d = indeg d - ds.count d := by
  induction ds generalizing indeg with
  | nil => rfl
  | cons e ds ih =>
    have hcons : release (e :: ds) indeg = release ds (update indeg e (indeg e - 1)) := rfl
    rw [hcons, ih]
    by_cases he : d = e
    · subst he
      simp
      omega
    · simp [he, Ne.symm he]

theorem foldl_release (L : List ℕ) (dependents : ℕ → List ℕ) (indeg : ℕ → ℕ) :
    L.foldl (fun indeg i => release (dependents i) indeg) indeg =
      release (L.flatMap dependents) indeg := by
  rw [release, foldl_flatMap]
  rfl

theorem foldl_place (L : List ℕ) (placed : ℕ → Bool) (j : ℕ) :
    L.foldl (fun placed i => update placed i true) placed j =
      (placed j || decide (j ∈ L)) := by
  induction L generalizing placed with
  | nil => simp
  | cons i L ih =>
    rw [foldl_cons, ih]
    by_cases hj : j = i
    · simp [hj]
    · simp [hj]

theorem mem_freeIndices {i : ℕ} : i ∈ freeIndices services indeg placed ↔
    i < services.length ∧ placed i = false ∧ indeg i = 0 := by
  rw [freeIndices]
  simp

theorem nodup_freeIndices : (freeIndices services indeg placed).Nodup := nodup_range.filter _

theorem countP_not_placed (services : List Service) (indeg : ℕ → ℕ) (placed : ℕ → Bool)
    (l : List ℕ) :
    l.countP (fun j => !(placed j || decide (j ∈ freeIndices services indeg placed))) +
      l.countP (· ∈ freeIndices services indeg placed) = l.countP (!placed ·) := by
  rw [← countP_or_of_disjoint fun j _ hj => ?_]
  · refine countP_congr fun j _ => ?_
    by_cases hj : j ∈ freeIndices services indeg placed
    · simp [(mem_freeIndices.mp hj).2.1]
    · simp [hj]
  · rw [Bool.not_eq_true', Bool.or_eq_false_iff] at hj
    exact hj.2

theorem countP_mem_freeIndices :
    (range services.length).countP (· ∈ freeIndices services indeg placed) =
      (freeIndices services indeg placed).length := by
  rw [countP_eq_length_filter]
  refine congrArg length (filter_congr fun i hi => ?_)
  rw [Bool.eq_iff_iff, decide_eq_true_eq, mem_freeIndices]
  simp [mem_range.mp hi]

theorem perm_filter_placed :
    ((range services.length).filter placed ++ freeIndices services indeg placed).Perm
      ((range services.length).filter
        fun j => placed j || decide (j ∈ freeIndices services indeg placed)) := by
  have hsplit := filter_append_perm placed ((range services.length).filter
    fun j => placed j || decide (j ∈ freeIndices services indeg placed))
  have hold : ∀ j ∈ range services.length,
      (placed j && (placed j || decide (j ∈ freeIndices services indeg placed))) = placed j :=
    fun j _ => by cases placed j <;> rfl
  have hnew : ∀ j ∈ range services.length,
      ((!placed j) && (placed j || decide (j ∈ freeIndices services indeg placed))) =
        (!placed j && decide (indeg j = 0)) := by
    intro j hj
    rw [Bool.eq_iff_iff]
    simp only [Bool.and_eq_true, Bool.not_eq_true', Bool.or_eq_true, decide_eq_true_eq,
      mem_freeIndices, mem_range.mp hj, true_and]
    constructor
    · rintro ⟨hopen, hplaced | hfree⟩
      · rw [hplaced] at hopen
        cases hopen
      · exact hfree
    · exact fun hfree => ⟨hfree.1, .inr hfree⟩
  rw [filter_filter, filter_filter, filter_congr hold,
    filter_congr hnew] at hsplit
  exact hsplit

/-! ### The invariant of the loop -/

/-- **A service requires another one** if it lists its name among its dependencies. -/
def Requires (services : List Service) (s t : Service) : Prop :=
  s ∈ services ∧ t ∈ services ∧ t.name ∈ s.dependencies

/-- **The state of the loop**, after the levels found so far: each count is the number of the
prerequisites that are not placed, the placed services are those of the levels, a service that
is placed has its level for its height, and one that is not has a chain below it as long as the
levels are many. -/
structure Levelled (services : List Service) (remaining : ℕ) (indeg : ℕ → ℕ) (placed : ℕ → Bool)
    (levels : List (List Service)) : Prop where
  indeg_eq : ∀ i s, services[i]? = some s → indeg i = (prereqs services s).countP (!placed ·)
  remaining_eq : remaining = (range services.length).countP (!placed ·)
  height : ∀ i s, services[i]? = some s → placed i = true →
    ∃ k < levels.length, Height (Requires services) s k
  chain : ∀ i s, services[i]? = some s → placed i = false →
    HasChain (Requires services) s levels.length
  height_of_mem : ∀ k level, levels[k]? = some level → ∀ s ∈ level, Height (Requires services) s k
  perm : levels.flatten.Perm
    (((range services.length).filter placed).filterMap fun i => services[i]?)

theorem levelled_init (services : List Service) :
    Levelled services services.length (linksOf services).indeg (fun _ => false) [] where
  indeg_eq i s hi := by
    rw [indeg_linksOf hi, Bool.not_false, countP_true]
  remaining_eq := by simp
  height i s _ hplaced := by cases hplaced
  chain i s _ _ := hasChain_zero s
  height_of_mem k level hk := by simp at hk
  perm := by simp

namespace Levelled

variable (h : Levelled services remaining indeg placed levels)
include h

theorem height_of_free {i : ℕ} (hi : services[i]? = some s) (hplaced : placed i = false)
    (hfree : indeg i = 0) : Height (Requires services) s levels.length := by
  refine Height.of_forall_lt (h.chain i s hi hplaced) ?_
  rintro t ⟨-, ht, hname⟩
  obtain ⟨p, hp⟩ := getElem?_of_mem ht
  rw [h.indeg_eq i s hi, countP_eq_zero] at hfree
  have hpplaced := hfree p (mem_prereqs.mpr ⟨t, hp, hname⟩)
  rw [Bool.not_eq_true', Bool.not_eq_false] at hpplaced
  exact h.height p t hp hpplaced

theorem exists_requires_of_not_free {i : ℕ} (hi : services[i]? = some s) (hopen : indeg i ≠ 0) :
    ∃ p t, services[p]? = some t ∧ placed p = false ∧ Requires services s t := by
  rw [h.indeg_eq i s hi, ← Nat.pos_iff_ne_zero, countP_pos_iff] at hopen
  obtain ⟨p, hp, hplaced⟩ := hopen
  obtain ⟨t, ht, hname⟩ := mem_prereqs.mp hp
  exact ⟨p, t, ht, by simpa using hplaced, mem_of_getElem? hi, mem_of_getElem? ht, hname⟩

/-- **With services left and none free, there is a cycle.** -/
theorem exists_cycle (hremaining : remaining ≠ 0)
    (hstuck : freeIndices services indeg placed = []) :
    ∃ s, TransGen (Requires services) s s := by
  have hopen : ∀ i s, services[i]? = some s → placed i = false → indeg i ≠ 0 := by
    intro i s hi hplaced hfree
    have hmem : i ∈ freeIndices services indeg placed := by
      rw [freeIndices, mem_filter, mem_range]
      exact ⟨(List.getElem?_eq_some_iff.mp hi).1, by simp [hplaced, hfree]⟩
    rw [hstuck] at hmem
    cases hmem
  -- the services left are finitely many, and each of them requires another one
  let W : Set Service := { s | ∃ i, services[i]? = some s ∧ placed i = false }
  have hfinite : W.Finite := by
    refine (finite_toSet services).subset ?_
    rintro s ⟨i, hi, -⟩
    exact mem_of_getElem? hi
  have hne : W.Nonempty := by
    rw [h.remaining_eq, ← Nat.pos_iff_ne_zero, countP_pos_iff] at hremaining
    obtain ⟨i, hi, hplaced⟩ := hremaining
    exact ⟨_, i, getElem?_eq_getElem (mem_range.mp hi), by simpa using hplaced⟩
  refine exists_transGen_self_of_finite hfinite hne ?_
  rintro s ⟨i, hi, hplaced⟩
  obtain ⟨p, t, hp, hpplaced, hst⟩ := h.exists_requires_of_not_free hi (hopen i s hi hplaced)
  exact ⟨t, ⟨p, hp, hpplaced⟩, .single hst⟩

/-- **One more level.** -/
theorem next {L : List ℕ} (hL : L = freeIndices services indeg placed) :
    Levelled services (remaining - L.length)
      (L.foldl (fun indeg i => release ((linksOf services).dependents i) indeg) indeg)
      (L.foldl (fun placed i => update placed i true) placed)
      (levels ++ [L.filterMap fun i => services[i]?]) := by
  have hheight : ∀ i s, services[i]? = some s → i ∈ L →
      Height (Requires services) s levels.length := by
    rintro i s hi hiL
    obtain ⟨-, hplaced, hfree⟩ := mem_freeIndices.mp (hL ▸ hiL)
    exact h.height_of_free hi hplaced hfree
  rw [funext (foldl_place L placed), foldl_release]
  refine ⟨fun i s hi => ?_, ?_, fun i s hi hnow => ?_, fun i s hi hnow => ?_,
    fun k level hk s hs => ?_, ?_⟩
  · -- the counts go down by the number of prerequisites in the level
    have hsum : (L.flatMap (linksOf services).dependents).count i =
        (prereqs services s).countP (· ∈ L) := by
      rw [count_flatMap, ← sum_map_count (hL ▸ nodup_freeIndices)]
      exact congrArg sum (map_congr_left fun p _ => count_dependents_linksOf hi p)
    have hcount := countP_not_placed services indeg placed (prereqs services s)
    rw [← hL] at hcount
    rw [release_apply, h.indeg_eq i s hi]
    omega
  · have hcount := countP_not_placed services indeg placed (range services.length)
    rw [countP_mem_freeIndices, ← hL] at hcount
    rw [h.remaining_eq]
    omega
  · rw [length_append]
    by_cases hiL : i ∈ L
    · exact ⟨levels.length, Nat.lt_succ_self _, hheight i s hi hiL⟩
    · obtain ⟨k, hk, hks⟩ := h.height i s hi (by simpa [hiL] using hnow)
      exact ⟨k, Nat.lt_succ_of_lt hk, hks⟩
  · -- a service that is still not placed was not free
    rw [Bool.or_eq_false_iff, decide_eq_false_iff_not] at hnow
    have hopen : indeg i ≠ 0 := fun hfree => hnow.2
      (hL ▸ mem_freeIndices.mpr ⟨(List.getElem?_eq_some_iff.mp hi).1, hnow.1, hfree⟩)
    obtain ⟨p, t, hp, hpplaced, hst⟩ := h.exists_requires_of_not_free hi hopen
    rw [length_append]
    exact hasChain_succ_iff.mpr ⟨t, hst, h.chain p t hp hpplaced⟩
  · rcases lt_or_ge k levels.length with hlt | hge
    · rw [getElem?_append_left hlt] at hk
      exact h.height_of_mem k level hk s hs
    · rw [getElem?_append_right hge, getElem?_singleton] at hk
      obtain ⟨hzero, hlevel⟩ := Option.ite_none_right_eq_some.mp hk
      cases hlevel
      obtain ⟨i, hiL, hi⟩ := mem_filterMap.mp hs
      rw [show k = levels.length by omega]
      exact hheight i s hi hiL
  · rw [flatten_append, flatten_singleton, hL]
    refine (h.perm.append_right _).trans ?_
    rw [← filterMap_append]
    exact perm_filter_placed.filterMap _

end Levelled

/-! ### The level assignment -/

/-- **A level assignment**: every service stands in the level of its height. -/
structure IsLevelling (services : List Service) (levels : List (List Service)) : Prop where
  perm : levels.flatten.Perm services
  height : ∀ k level, levels[k]? = some level → ∀ s ∈ level, Height (Requires services) s k

theorem Levelled.isLevelling (h : Levelled services 0 indeg placed levels) :
    IsLevelling services levels := by
  refine ⟨?_, h.height_of_mem⟩
  have hall : ∀ i ∈ range services.length, placed i = true := by
    intro i hi
    have hnone := countP_eq_zero.mp h.remaining_eq.symm i hi
    simpa using hnone
  have hperm := h.perm
  rwa [filter_eq_self.mpr hall, filterMap_getElem?_range] at hperm

/-- **The loop** finds a level assignment or a cycle. -/
theorem levelsFrom_spec (h : Levelled services remaining indeg placed levels) :
    (∃ found, levelsFrom services (linksOf services).dependents remaining indeg placed levels =
        .ok found ∧ IsLevelling services found) ∨
      (∃ e, levelsFrom services (linksOf services).dependents remaining indeg placed levels =
        .error e) ∧ ∃ s, TransGen (Requires services) s s := by
  induction remaining using Nat.strong_induction_on generalizing indeg placed levels with
  | _ remaining ih =>
    rw [levelsFrom]
    by_cases hzero : remaining = 0
    · subst hzero
      exact .inl ⟨levels, if_pos rfl, h.isLevelling⟩
    · rw [if_neg hzero]
      by_cases hstuck : freeIndices services indeg placed = []
      · exact .inr ⟨⟨_, if_pos hstuck⟩, h.exists_cycle hzero hstuck⟩
      · simp only [if_neg hstuck]
        have hpos := length_pos_iff.mpr hstuck
        exact ih _ (by omega) (h.next rfl)

theorem computeStartLevels_spec (services : List Service) :
    (Known services ∧ ∃ levels, computeStartLevels services = .ok levels ∧
        IsLevelling services levels) ∨
      ((∃ e, computeStartLevels services = .error e) ∧
        (Known services → ∃ s, TransGen (Requires services) s s)) := by
  by_cases hknown : Known services
  · have hlinks : computeStartLevels services = levelsFrom services (linksOf services).dependents
        services.length (linksOf services).indeg (fun _ => false) [] := by
      rw [computeStartLevels, linkAll_of_known hknown]
    rw [hlinks]
    rcases levelsFrom_spec (levelled_init services) with hfound | ⟨herror, hcycle⟩
    · exact .inl ⟨hknown, hfound⟩
    · exact .inr ⟨herror, fun _ => hcycle⟩
  · obtain ⟨e, he⟩ := linkAll_of_not_known hknown
    exact .inr ⟨⟨e, by rw [computeStartLevels, he]⟩, fun h => absurd h hknown⟩

theorem isLevelling_of_computeStartLevels (h : computeStartLevels services = .ok levels) :
    Known services ∧ IsLevelling services levels := by
  rcases computeStartLevels_spec services with ⟨hknown, found, hfound, hlev⟩ | ⟨⟨e, he⟩, -⟩
  · rw [h] at hfound
    cases hfound
    exact ⟨hknown, hlev⟩
  · rw [h] at he
    cases he

theorem IsLevelling.exists_height (h : IsLevelling services levels) (hs : s ∈ services) :
    ∃ k level, levels[k]? = some level ∧ s ∈ level ∧ Height (Requires services) s k := by
  obtain ⟨level, hlevel, hmem⟩ := mem_flatten.mp (h.perm.mem_iff.mpr hs)
  obtain ⟨k, hk⟩ := getElem?_of_mem hlevel
  exact ⟨k, level, hk, hmem, h.height k level hk s hmem⟩

/-! ### Cycles of names and of services -/

/-- **The name dependency graph**: some service of the one name lists the other. -/
def NameRequires (services : List Service) (a b : String) : Prop :=
  ∃ s ∈ services, s.name = a ∧ b ∈ s.dependencies

theorem nameCycle_of_cycle (h : TransGen (Requires services) s s) :
    TransGen (NameRequires services) s.name s.name :=
  h.lift Service.name fun _ _ ⟨hs, _, hdep⟩ => ⟨_, hs, rfl, hdep⟩

/-- **A cycle of names is one of services**: of the services that list the next name of the
cycle, each requires all of that name. -/
theorem exists_cycle_of_nameCycle {n : String} (h : TransGen (NameRequires services) n n) :
    ∃ s, TransGen (Requires services) s s := by
  have hfirst : ∀ a b, TransGen (NameRequires services) a b →
      ∃ s ∈ services, s.name = a ∧
        ∀ t ∈ services, t.name = b → TransGen (Requires services) s t := by
    intro a b hab
    induction hab using TransGen.head_induction_on with
    | single hab =>
      obtain ⟨s, hs, rfl, hdep⟩ := hab
      exact ⟨s, hs, rfl, fun t ht hname => .single ⟨hs, ht, hname ▸ hdep⟩⟩
    | head hab _ ih =>
      obtain ⟨s, hs, rfl, hdep⟩ := hab
      obtain ⟨t, ht, rfl, hreach⟩ := ih
      exact ⟨s, hs, rfl, fun u hu hname => .head ⟨hs, ht, hdep⟩ (hreach u hu hname)⟩
  obtain ⟨s, hs, rfl, hreach⟩ := hfirst n n h
  exact ⟨s, hreach s hs rfl⟩

/-- **`computeStartLevels` is a correct level assignment.** It succeeds if and only if every
dependency is known and the names depend on each other without a cycle; then the levels hold
every service once, each in the level that is the length of the longest chain of dependencies
below it, and all that it depends on stands in earlier levels. -/
theorem computeStartLevels_correct (services : List Service) :
    ((∃ levels, computeStartLevels services = .ok levels) ↔
      (∀ s ∈ services, ∀ dep ∈ s.dependencies, ∃ t ∈ services, t.name = dep) ∧
        ∀ n, ¬TransGen (NameRequires services) n n) ∧
    ∀ levels, computeStartLevels services = .ok levels →
      levels.flatten.Perm services ∧
      ∀ k level, levels[k]? = some level → ∀ s ∈ level,
        IsGreatest { n | ∃ below : List Service, below.length = n ∧
          (s :: below).IsChain (Requires services) } k ∧
        ∀ j lower, levels[j]? = some lower → ∀ t ∈ lower, t.name ∈ s.dependencies → j < k := by
  refine ⟨⟨?_, ?_⟩, ?_⟩
  · rintro ⟨levels, hlevels⟩
    obtain ⟨hknown, hlev⟩ := isLevelling_of_computeStartLevels hlevels
    refine ⟨hknown, fun n hcycle => ?_⟩
    obtain ⟨s, hs⟩ := exists_cycle_of_nameCycle hcycle
    obtain ⟨t, ⟨hmem, -⟩, -⟩ := TransGen.head'_iff.mp hs
    obtain ⟨k, -, -, -, hheight⟩ := hlev.exists_height hmem
    exact hheight.not_transGen_self hs
  · rintro ⟨hknown, hacyclic⟩
    rcases computeStartLevels_spec services with ⟨-, levels, hlevels, -⟩ | ⟨-, hcycle⟩
    · exact ⟨levels, hlevels⟩
    · obtain ⟨s, hs⟩ := hcycle hknown
      exact absurd (nameCycle_of_cycle hs) (hacyclic s.name)
  · intro levels hlevels
    obtain ⟨-, hlev⟩ := isLevelling_of_computeStartLevels hlevels
    refine ⟨hlev.perm, fun k level hk s hs => ⟨hlev.height k level hk s hs, ?_⟩⟩
    intro j lower hj t ht hdep
    have hmem : ∀ {k level s}, levels[k]? = some level → s ∈ level → s ∈ services :=
      fun hk hs => hlev.perm.mem_iff.mp (mem_flatten.mpr ⟨_, mem_of_getElem? hk, hs⟩)
    exact (hlev.height k level hk s hs).lt_of_rel ⟨hmem hk hs, hmem hj ht, hdep⟩
      (hlev.height j lower hj t ht)

def plain (name composeFile : String) (dependencies : List String) : Service :=
  { name, composeFile, dependencies }

/-- Two stores of one name, what caches them, and what uses both. -/
theorem computeStartLevels_tiers :
    let db₁ := plain "db" "a.yml" []
    let db₂ := plain "db" "b.yml" []
    let cache := plain "cache" "c.yml" ["db"]
    let api := plain "api" "d.yml" ["cache", "db"]
    computeStartLevels [api, db₁, cache, db₂] = .ok [[db₁, db₂], [cache], [api]] ∧
      Perm [db₁, db₂, cache, api] [api, db₁, cache, db₂] := by
  intro db₁ db₂ cache api
  have hok : computeStartLevels [api, db₁, cache, db₂] = .ok [[db₁, db₂], [cache], [api]] := by
    decide +kernel
  exact ⟨hok, ((computeStartLevels_correct [api, db₁, cache, db₂]).2 _ hok).1⟩

end Containers.Orchestrator
