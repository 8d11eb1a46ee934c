import Containers.Go.Platform
import Mathlib.Data.String.Basic

/-!
# The collector of ctop

`pkg/ctop` lists the containers of all runtimes like processes. `Sort` orders them by one field, and
its comparison has three flaws (`sortProcesses_legal_iff`): for the ascending order it says that
what is not less is less, a processor share that is not a number is like all others, and names,
states, runtimes and hosts come in ascending order when the descending one is asked for.
-/

namespace Containers.Ctop

open Go List

inductive SortField where
  | cpu | mem | name | state | uptime | runtime | host
  /-- Any other text. -/
  | other
  deriving DecidableEq

inductive SortOrder where
  | desc | asc
  /-- Any other text. -/
  | other
  deriving DecidableEq

section Sorting

variable {F : Type}

/-- `ContainerProcess`, as far as it is sorted by; `F` are the floating-point numbers, and a share
of the processor may be none of them. -/
structure ContainerProcess (F : Type) where
  cpuPercent : Option F
  memoryUsage : ℕ
  name : String
  state : String
  startedAt : ℤ
  runtime : String
  host : String

/-- `<` of floating-point numbers: nothing is less than NaN, and NaN is less than nothing. -/
def numLess [LT F] [DecidableLT F] : Option F → Option F → Bool
  | some x, some y => x < y
  | _, _ => false

/-- What `Sort` hands to `sort.Slice`. -/
def sortLess [LT F] [DecidableLT F] (field : SortField) (order : SortOrder)
    (a b : ContainerProcess F) : Bool :=
  let less := match field with
    | .cpu | .other => numLess b.cpuPercent a.cpuPercent
    | .mem => decide (b.memoryUsage < a.memoryUsage)
    | .name => decide (a.name < b.name)
    | .state => decide (a.state < b.state)
    | .uptime => decide (a.startedAt < b.startedAt)
    | .runtime => decide (a.runtime < b.runtime)
    | .host => decide (a.host < b.host)
  if order = .asc then !less else less

/-- `Sort`. -/
def sortProcesses [LT F] [DecidableLT F] (P : Platform) (field : SortField) (order : SortOrder)
    (l : List (ContainerProcess F)) : List (ContainerProcess F) :=
  P.sortSlice (sortLess field order) l

variable [LinearOrder F]

/-- The value of the field is smaller for `a` than for `b`; the later a process was started, the
smaller is its uptime. -/
def Below (field : SortField) (a b : ContainerProcess F) : Prop :=
  match field with
  | .cpu | .other => numLess a.cpuPercent b.cpuPercent = true
  | .mem => a.memoryUsage < b.memoryUsage
  | .name => a.name < b.name
  | .state => a.state < b.state
  | .uptime => b.startedAt < a.startedAt
  | .runtime => a.runtime < b.runtime
  | .host => a.host < b.host

/-- `a` may stand before `b` in this order; an order of another name asks for nothing. -/
def InOrder (field : SortField) (order : SortOrder) (a b : ContainerProcess F) : Prop :=
  match order with
  | .desc => ¬Below field a b
  | .asc => ¬Below field b a
  | .other => True

/-- **The lists that are sorted as they should be**: none but the empty one in ascending order,
those without a NaN or with one number only by the processor, and those with one value only by a
field of text in descending order. -/
def Legal (field : SortField) (order : SortOrder) (l : List (ContainerProcess F)) : Prop :=
  (order = .asc → l = []) ∧
  match field with
  | .cpu | .other => (∃ p ∈ l, p.cpuPercent = none) →
      ∀ p ∈ l, ∀ q ∈ l, ∀ x y, p.cpuPercent = some x → q.cpuPercent = some y → x = y
  | .mem | .uptime => True
  | .name => order = .desc → ∀ p ∈ l, ∀ q ∈ l, p.name = q.name
  | .state => order = .desc → ∀ p ∈ l, ∀ q ∈ l, p.state = q.state
  | .runtime => order = .desc → ∀ p ∈ l, ∀ q ∈ l, p.runtime = q.runtime
  | .host => order = .desc → ∀ p ∈ l, ∀ q ∈ l, p.host = q.host

/-! ### Sorting by a key -/

variable {P : Platform} {field : SortField} {order : SortOrder} {l : List (ContainerProcess F)}

theorem sorted_of_key {κ : Type} [LinearOrder κ] (key : { p // p ∈ l } → κ)
    (hless : ∀ a b : { p // p ∈ l }, sortLess field order a.1 b.1 = true ↔ key a < key b) :
    IsStrictWeakOrder { p // p ∈ l } (fun a b => sortLess field order a.1 b.1 = true) ∧
      (sortProcesses P field order l).Pairwise fun a b => sortLess field order b a = false := by
  have hkey : ByKey (fun a b : { p // p ∈ l } => sortLess field order a.1 b.1) key := hless
  have hweak := hkey.isStrictWeakOrder
  exact ⟨hweak, P.sortSlice_pairwise _ _ hweak⟩

theorem not_weak_asc (h : IsStrictWeakOrder { p // p ∈ l } fun a b =>
    sortLess field .asc a.1 b.1 = true) : l = [] := by
  refine eq_nil_iff_forall_not_mem.mpr fun p hp => h.irrefl ⟨p, hp⟩ ?_
  have hself : numLess p.cpuPercent p.cpuPercent = false := by
    cases p.cpuPercent <;> simp [numLess]
  cases field <;> simp [sortLess, hself]

theorem legal_iff_of_down {κ : Type} [LinearOrder κ] (key : ContainerProcess F → κ)
    (horder : order ≠ .asc)
    (hless : ∀ a b, sortLess field order a b = true ↔ key b < key a)
    (hbelow : ∀ a b, Below field a b ↔ key a < key b) :
    IsStrictWeakOrder { p // p ∈ l } (fun a b => sortLess field order a.1 b.1 = true) ∧
      (sortProcesses P field order l).Pairwise (InOrder field order) := by
  obtain ⟨hweak, hsorted⟩ := sorted_of_key (P := P)
    (fun p : { p // p ∈ l } => OrderDual.toDual (key p.1)) fun a b => hless a.1 b.1
  refine ⟨hweak, hsorted.imp fun {a b} h => ?_⟩
  cases order with
  | asc => exact absurd rfl horder
  | other => trivial
  | desc => exact fun hab => absurd ((hless b a).mpr ((hbelow a b).mp hab)) (by simp [h])

theorem legal_iff_of_up (key : ContainerProcess F → String) (horder : order ≠ .asc)
    (hless : ∀ a b, sortLess field order a b = true ↔ key a < key b)
    (hbelow : ∀ a b, Below field a b ↔ key a < key b) :
    (IsStrictWeakOrder { p // p ∈ l } (fun a b => sortLess field order a.1 b.1 = true) ∧
      (sortProcesses P field order l).Pairwise (InOrder field order)) ↔
    (order = .desc → ∀ p ∈ l, ∀ q ∈ l, key p = key q) := by
  obtain ⟨hweak, hsorted⟩ := sorted_of_key (P := P)
    (fun p : { p // p ∈ l } => key p.1) fun a b => hless a.1 b.1
  have hmem : ∀ {p}, p ∈ sortProcesses P field order l ↔ p ∈ l :=
    (P.sortSlice_perm (sortLess field order) l).mem_iff
  rw [and_iff_right hweak]
  cases order with
  | asc => exact absurd rfl horder
  | other => exact iff_of_true (pairwise_of_forall fun _ _ => trivial) nofun
  | desc =>
    constructor
    · intro h _ p hp q hq
      have heq : (sortProcesses P field .desc l).Pairwise fun a b => key a = key b :=
        (hsorted.and h).imp fun {a b} hab => le_antisymm
          (not_lt.mp fun hlt => absurd ((hless b a).mpr hlt) (by simp [hab.1]))
          (not_lt.mp fun hlt => hab.2 ((hbelow a b).mpr hlt))
      have : Std.Symm fun a b : ContainerProcess F => key a = key b := ⟨fun _ _ h => h.symm⟩
      exact Pairwise.forall_of_forall (R := fun a b => key a = key b) (fun _ _ => rfl) heq
        (hmem.mpr hp) (hmem.mpr hq)
    · intro h
      refine hsorted.imp_of_mem fun {a b} ha hb _ hab => ?_
      exact absurd ((hbelow a b).mp hab) (h rfl a (hmem.mp ha) b (hmem.mp hb)).not_lt

theorem legal_iff_of_cpu (horder : order ≠ .asc)
    (hless : ∀ a b : ContainerProcess F,
      sortLess field order a b = numLess b.cpuPercent a.cpuPercent)
    (hbelow : ∀ a b : ContainerProcess F,
      Below field a b ↔ numLess a.cpuPercent b.cpuPercent = true) :
    (IsStrictWeakOrder { p // p ∈ l } (fun a b => sortLess field order a.1 b.1 = true) ∧
      (sortProcesses P field order l).Pairwise (InOrder field order)) ↔
    ((∃ p ∈ l, p.cpuPercent = none) → ∀ p ∈ l, ∀ q ∈ l, ∀ x y,
      p.cpuPercent = some x → q.cpuPercent = some y → x = y) := by
  constructor
  · rintro ⟨h, -⟩ ⟨nan, hnan, hnone⟩ p hp q hq x y hx hy
    have hincomp := h.incomp_trans ⟨p, hp⟩ ⟨nan, hnan⟩ ⟨q, hq⟩
      (by simp [hless, hnone, numLess]) (by simp [hless, hnone, numLess])
    simp only [hless, hx, hy, numLess, decide_eq_true_eq, not_lt] at hincomp
    exact le_antisymm hincomp.1 hincomp.2
  · intro h
    have hsorted : IsStrictWeakOrder { p // p ∈ l } (fun a b =>
        sortLess field order a.1 b.1 = true) ∧
        (sortProcesses P field order l).Pairwise fun a b => sortLess field order b a = false := by
      by_cases hnan : ∃ p ∈ l, p.cpuPercent = none
      · -- no two are compared as different
        refine sorted_of_key (fun _ => ()) fun a b => ?_
        rw [hless]
        cases ha : a.1.cpuPercent <;> cases hb : b.1.cpuPercent <;> simp [numLess]
        exact (h hnan _ b.2 _ a.2 _ _ hb ha).ge
      · refine sorted_of_key (κ := (WithBot F)ᵒᵈ) (·.1.cpuPercent) fun a b => ?_
        obtain ⟨x, hx⟩ := Option.ne_none_iff_exists'.mp fun hn => hnan ⟨a.1, a.2, hn⟩
        obtain ⟨y, hy⟩ := Option.ne_none_iff_exists'.mp fun hn => hnan ⟨b.1, b.2, hn⟩
        rw [hless, hx, hy, numLess, decide_eq_true_eq]
        exact WithBot.coe_lt_coe.symm
    refine ⟨hsorted.1, hsorted.2.imp fun {a b} hab => ?_⟩
    cases order with
    | asc => exact absurd rfl horder
    | other => trivial
    | desc =>
      rw [hless] at hab
      exact fun hlt => absurd ((hbelow a b).mp hlt) (by simp [hab])

/-- **`Sort` compares legally** – its comparison is a strict weak order of the elements of the list,
and the list comes out sorted by the field in the order asked for – if and only if the list is one
that the comparison does justice to. -/
theorem sortProcesses_legal_iff (P : Platform) (field : SortField) (order : SortOrder)
    (l : List (ContainerProcess F)) :
    (IsStrictWeakOrder { p // p ∈ l } (fun a b => sortLess field order a.1 b.1 = true) ∧
      (sortProcesses P field order l).Pairwise (InOrder field order)) ↔ Legal field order l := by
  by_cases horder : order = .asc
  · subst horder
    refine ⟨fun h => ?_, fun h => ?_⟩
    · obtain rfl := not_weak_asc h.1
      cases field <;> simp [Legal]
    · obtain rfl := h.1 rfl
      have hnil : sortProcesses P field .asc ([] : List (ContainerProcess F)) = [] :=
        (P.sortSlice_perm _ []).eq_nil
      rw [hnil]
      exact ⟨{ irrefl := fun p => absurd p.2 not_mem_nil
               trans := fun p => absurd p.2 not_mem_nil
               incomp_trans := fun p => absurd p.2 not_mem_nil }, .nil⟩
  · refine Iff.trans ?_ (and_iff_right fun h => absurd h horder).symm
    cases field with
    | cpu | other => exact legal_iff_of_cpu horder (by simp [sortLess, horder]) fun _ _ => Iff.rfl
    | mem =>
      exact iff_of_true (legal_iff_of_down (·.memoryUsage) horder (by simp [sortLess, horder])
        fun _ _ => Iff.rfl) trivial
    | uptime =>
      exact iff_of_true (legal_iff_of_down (fun p => OrderDual.toDual p.startedAt) horder
        (by simp [sortLess, horder]) fun _ _ => Iff.rfl) trivial
    | name => exact legal_iff_of_up (·.name) horder (by simp [sortLess, horder]) fun _ _ => Iff.rfl
    | state =>
        exact legal_iff_of_up (·.state) horder (by simp [sortLess, horder]) fun _ _ => Iff.rfl
    | runtime =>
      exact legal_iff_of_up (·.runtime) horder (by simp [sortLess, horder]) fun _ _ => Iff.rfl
    | host => exact legal_iff_of_up (·.host) horder (by simp [sortLess, horder]) fun _ _ => Iff.rfl

end Sorting

/-- **In ascending order equals are less than each other.** -/
theorem sortLess_irreflexive_fails :
    let a : ContainerProcess ℚ := ⟨some 5, 0, "a", "running", 0, "docker", "local"⟩
    sortLess .cpu .asc a a = true := by
  decide

end Containers.Ctop
