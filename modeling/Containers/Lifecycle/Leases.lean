import Containers.Lifecycle.Steps

/-!
# Leases

An `Acquire` counts its lease, takes a slot of the semaphore, and only then returns; a release gives
the slot back and takes the lease off the count. The two numbers are changed in separate steps, on
the way to a grant, on three ways back, and in a release that may be called any number of times from
any number of threads.

`LeaseInv` says what they are at every moment: the count is the number of leases that have been
granted and not taken off it, and of the `Acquire`s that have counted theirs and not returned; the
slots that are taken are those of leases that have not given them back, and of the `Acquire`s that
have one. It holds in all interleavings (`lease_accounting`).
-/

namespace Containers.Lifecycle

open Sections List Option

variable {M : DefaultManager} {m m' : Memory} {o : Option String} {n : String}
  {A B used made F : List Frame} {l : ℕ} {f : ServiceEntry → ServiceEntry} {p : AcquirePoint}
  {lease : Lease} {g : Frame} {c : Call}

/-! ### What is counted -/

/-- The lease of the `Acquire` is counted. -/
def AcquirePoint.counts : AcquirePoint → Bool
  | .slot | .recheck | .unslot | .uncount _ | .readIdle | .touch _ | .grant => true
  | .enter | .lazy | .ensure _ | .booting _ | .bootFailed _ _ | .gate => false

/-- The `Acquire` has a slot, if the leases are limited. -/
def AcquirePoint.occupies : AcquirePoint → Bool
  | .recheck | .unslot | .readIdle | .touch _ | .grant => true
  | .enter | .lazy | .ensure _ | .booting _ | .bootFailed _ _ | .gate | .slot | .uncount _ => false

/-- An `Acquire` of the service that is in progress and has counted its lease. -/
def Frame.counts (n : String) : Frame → Bool
  | .acquire n' p => n' = n && p.counts
  | _ => false

/-- An `Acquire` of the service that is in progress and has a slot. -/
def Frame.occupies (n : String) : Frame → Bool
  | .acquire n' p => n' = n && p.occupies
  | _ => false

@[simp] theorem counts_acquire (n n' : String) (p : AcquirePoint) :
    (Frame.acquire n p).counts n' = (decide (n = n') && p.counts) := rfl

@[simp] theorem occupies_acquire (n n' : String) (p : AcquirePoint) :
    (Frame.acquire n p).occupies n' = (decide (n = n') && p.occupies) := rfl

/-- A lease of the service that was granted and not yet released. -/
def Lease.Unreleased (n : String) (lease : Lease) : Prop :=
  lease.service = n ∧ (lease.stage = .held ∨ lease.stage = .begun ∨ lease.stage = .returned)

def Lease.Outstanding (n : String) (lease : Lease) : Prop :=
  lease.service = n ∧ (lease.stage = .held ∨ lease.stage = .begun)

instance (lease : Lease) : Decidable (lease.Unreleased n) := inferInstanceAs (Decidable (_ ∧ _))

instance (lease : Lease) : Decidable (lease.Outstanding n) := inferInstanceAs (Decidable (_ ∧ _))

/-- The leases of the service that were granted and not yet released. -/
def Memory.unreleased (m : Memory) (n : String) : ℕ := m.leases.countP (·.Unreleased n)

def Memory.outstanding (m : Memory) (n : String) : ℕ := m.leases.countP (·.Outstanding n)

/-! ### Releases -/

def Frame.works (l : ℕ) : Frame → Bool
  | .release l' p => l' = l && p ≠ .enter
  | _ => false

/-- How far the release is, where its work is at this point. -/
@[simp] def ReleasePoint.stage : ReleasePoint → LeaseStage
  | .enter => .held
  | .slot => .begun
  | .uncount => .returned
  | .readIdle | .touch _ => .released

@[simp] def LeaseStage.underWay : LeaseStage → Bool
  | .begun | .returned | .released => true
  | .held | .done => false

/-- **The invariant.** -/
structure LeaseInv (M : DefaultManager) (m : Memory) (F : List Frame) : Prop where
  count : ∀ n, (m.entry n).activeLeases = Int32.ofNat (m.unreleased n + F.countP (·.counts n))
  taken : ∀ n, M.slots n ≠ 0 → (m.entry n).taken = m.outstanding n + F.countP (·.occupies n)
  le : ∀ n, (m.entry n).taken ≤ M.slots n
  /-- At most one thread is at work on a release. -/
  works : ∀ l, F.countP (·.works l) =
    m.leases[l]?.elim 0 fun lease => if lease.stage.underWay then 1 else 0
  stage : ∀ l p, .release l p ∈ F → p ≠ .enter → m.leases[l]?.map Lease.stage = some p.stage

theorem leaseInv_initial : LeaseInv M {} [] where
  count _ := rfl
  taken _ _ := rfl
  le _ := Nat.zero_le _
  works _ := rfl
  stage _ _ h := absurd h not_mem_nil

/-! ### Steps that do no work on a release -/

@[simp] def Frame.Unreleasing (f : Frame) : Prop := ∀ l p, f = .release l p → p = .enter

theorem Frame.Unreleasing.works {f : Frame} (h : f.Unreleasing) (l : ℕ) : f.works l = false := by
  cases f with
  | release l' p => simp [Frame.works, h l' p rfl]
  | start | stop | acquire | fire | shutdown | ret => rfl

theorem countP_works_eq_zero (h : ∀ f ∈ F, f.Unreleasing) (l : ℕ) : F.countP (·.works l) = 0 :=
  countP_eq_zero.mpr fun f hf => by simp [(h f hf).works l]

/-- **The balance**: a step that does no work on a release keeps the books if what it adds to a
number it adds to what the number counts. -/
theorem LeaseInv.balance (h : LeaseInv M m (A ++ (used ++ B))) (new : List Lease)
    (hleases : m'.leases = m.leases ++ new) (hnew : ∀ lease ∈ new, lease.stage = .held)
    (hused : ∀ f ∈ used, f.Unreleasing) (hmade : ∀ f ∈ made, f.Unreleasing)
    (hcount : ∀ n, (m'.entry n).activeLeases + .ofNat (used.countP (·.counts n))
      = (m.entry n).activeLeases + .ofNat (made.countP (·.counts n) + new.countP (·.Unreleased n)))
    (htaken : ∀ n, M.slots n ≠ 0 → (m'.entry n).taken + used.countP (·.occupies n)
      = (m.entry n).taken + made.countP (·.occupies n) + new.countP (·.Outstanding n))
    (hle : ∀ n, (m'.entry n).taken ≤ M.slots n) : LeaseInv M m' (A ++ (made ++ B)) := by
  constructor
  · intro n
    have hold := h.count n
    have hstep := hcount n
    simp only [Memory.unreleased, hleases, countP_append, Int32.ofNat_add] at hold hstep ⊢
    grind
  · intro n hn
    have hold := h.taken n hn
    have hstep := htaken n hn
    simp only [Memory.outstanding, hleases, countP_append] at hold ⊢
    omega
  · exact hle
  · intro l
    have hold := h.works l
    simp only [countP_append, countP_works_eq_zero hused, countP_works_eq_zero hmade] at hold ⊢
    rw [hold, hleases]
    by_cases hl : l < m.leases.length
    · rw [getElem?_append_left hl]
    · rw [getElem?_append_right (by omega), getElem?_eq_none (by omega)]
      cases hlease : new[l - m.leases.length]? with
      | none => rfl
      | some lease =>
        rw [elim_some, hnew lease (mem_of_getElem? hlease)]
        rfl
  · intro l p hp hne
    have hmem : .release l p ∈ A ++ (used ++ B) := mem_after.mpr
      (.inr ((mem_after.mp hp).resolve_left fun hp => hne (hmade _ hp l p rfl)))
    obtain ⟨lease, hlease, hstage⟩ := map_eq_some_iff.mp (h.stage l p hmem hne)
    obtain ⟨hl, -⟩ := List.getElem?_eq_some_iff.mp hlease
    rw [hleases, getElem?_append_left hl, hlease, ← hstage]
    rfl

theorem unleased_modify
    (hactive : ∀ e, (f e).activeLeases = e.activeLeases) (htaken : ∀ e, (f e).taken = e.taken) :
    Unleased m (m.modify n f) :=
  ⟨rfl, entry_field rfl hactive, entry_field rfl htaken⟩

/-- A frame that has nothing to do with leases. -/
structure Frame.Leaseless (f : Frame) : Prop where
  unreleasing : f.Unreleasing
  counts : ∀ n, f.counts n = false
  occupies : ∀ n, f.occupies n = false

theorem LeaseInv.of_unleased (h : LeaseInv M m (A ++ (used ++ B))) (hm : Unleased m m')
    (hused : ∀ f ∈ used, f.Leaseless) (hmade : ∀ f ∈ made, f.Leaseless) :
    LeaseInv M m' (A ++ (made ++ B)) := by
  have hzero : ∀ {F : List Frame}, (∀ f ∈ F, f.Leaseless) → ∀ n,
      F.countP (·.counts n) = 0 ∧ F.countP (·.occupies n) = 0 := fun hF n =>
    ⟨countP_eq_zero.mpr fun f hf => by simp [(hF f hf).counts n],
      countP_eq_zero.mpr fun f hf => by simp [(hF f hf).occupies n]⟩
  refine h.balance [] (by simp [hm.leases]) (by simp) (fun f hf => (hused f hf).unreleasing)
    (fun f hf => (hmade f hf).unreleasing) ?_ ?_ fun n => (hm.taken n).trans_le (h.le n)
  · intro n
    simp [hm.activeLeases n, (hzero hused n).1, (hzero hmade n).1]
  · intro n _
    simp [hm.taken n, (hzero hused n).2, (hzero hmade n).2]

@[simp] theorem leaseless_iff {f : Frame} :
    f.Leaseless ↔ f.Unreleasing ∧ ∀ n p, f = .acquire n p → p.counts = false := by
  constructor
  · refine fun h => ⟨h.unreleasing, ?_⟩
    rintro n p rfl
    simpa using h.counts n
  · rintro ⟨hreleasing, hacquire⟩
    cases f with
    | acquire n' p =>
      have hp := hacquire n' p rfl
      have hp' : p.occupies = false := by cases p <;> first | rfl | cases hp
      exact ⟨hreleasing, by simp [hp], by simp [hp']⟩
    | start | stop | release | fire | shutdown | ret =>
      exact ⟨hreleasing, fun _ => rfl, fun _ => rfl⟩

theorem LeaseInv.le_modify (h : LeaseInv M m F)
    (hle : (f (m.entry n)).taken ≤ M.slots n) (n' : String) :
    ((m.modify n f).entry n').taken ≤ M.slots n' := by
  rw [entry_modify_apply]
  split_ifs with hn
  · rwa [hn]
  · exact h.le n'

/-! ### The steps of an `Acquire` -/

/-- An `Acquire` that has counted its lease goes on, and changes the two numbers by as much as
its own part in them changes. -/
theorem LeaseInv.acquire
    (h : LeaseInv M m (A ++ ([Frame.acquire n p] ++ B)))
    (hg : g.Unreleasing) (hother : ∀ n', n' ≠ n → g.counts n' = false ∧ g.occupies n' = false)
    (hcount : ∀ e, (f e).activeLeases + .ofNat (if p.counts then 1 else 0)
      = e.activeLeases + .ofNat (if g.counts n then 1 else 0))
    (htaken : M.slots n ≠ 0 → (f (m.entry n)).taken + (if p.occupies then 1 else 0)
      = (m.entry n).taken + if g.occupies n then 1 else 0)
    (hle : (f (m.entry n)).taken ≤ M.slots n) :
    LeaseInv M (m.modify n f) (A ++ ([g] ++ B)) := by
  refine h.balance [] (append_nil _).symm (by simp) (by simp) (forall_mem_singleton.mpr hg) ?_ ?_
    (h.le_modify hle)
  · intro n'
    have he := hcount (m.entry n)
    rw [entry_modify_apply]
    by_cases hn : n' = n
    · subst hn
      simpa using he
    · simp [hn, Ne.symm hn, (hother n' hn).1]
  · intro n' hslots
    rw [entry_modify_apply]
    by_cases hn : n' = n
    · subst hn
      simpa using htaken hslots
    · simp [hn, Ne.symm hn, (hother n' hn).2]

theorem LeaseInv.taken_pos (h : LeaseInv M m (A ++ ([Frame.acquire n p] ++ B)))
    (hp : p.occupies = true) (hslots : M.slots n ≠ 0) : 0 < (m.entry n).taken := by
  have htaken := h.taken n hslots
  simp [hp] at htaken
  omega

theorem others_acquire {n : String} (n' : String) (hn : n' ≠ n) :
    (Frame.acquire n p).counts n' = false ∧ (Frame.acquire n p).occupies n' = false := by
  simp [hn.symm]

theorem modify_id : m.modify n id = m := by
  simp [Memory.modify]

theorem LeaseInv.pass {q : AcquirePoint} (h : LeaseInv M m (A ++ ([Frame.acquire n p] ++ B)))
    (hcounts : q.counts = p.counts) (hoccupies : q.occupies = p.occupies) :
    LeaseInv M m (A ++ ([Frame.acquire n q] ++ B)) := by
  have hmod := h.acquire (g := .acquire n q) (f := id) (by simp) others_acquire (by simp [hcounts])
    (by simp [hoccupies]) (h.le n)
  rwa [modify_id] at hmod

attribute [local simp] AcquirePoint.counts AcquirePoint.occupies

/-- **An `Acquire` keeps the books.** -/
theorem LeaseInv.acquireStep (h : LeaseInv M m (A ++ ([Frame.acquire n p] ++ B)))
    (hstep : acquireStep M m o n p = some (m', made)) : LeaseInv M m' (A ++ (made ++ B)) := by
  cases p with
  | enter =>
    cases hs : M.services.lookup n <;> rw [Lifecycle.acquireStep, hs] at hstep <;> cases hstep
    · exact h.of_unleased .refl (by simp) (by simp)
    · refine h.of_unleased .refl (by simp) ?_
      split_ifs <;> simp
  | lazy =>
    cases hb : (m.entry n).lazyBooter <;> rw [Lifecycle.acquireStep, hb] at hstep <;> cases hstep
    · have hm : Unleased m (m.modify n fun e => { e with lazyBooter := some m.nextBooter }) :=
        unleased_modify (fun _ => rfl) fun _ => rfl
      exact h.of_unleased ⟨rfl, hm.activeLeases, hm.taken⟩ (by simp) (by simp)
    · exact h.of_unleased .refl (by simp) (by simp)
  | ensure b =>
    cases hb : (m.booter b).started <;>
      simp only [Lifecycle.acquireStep, hb] at hstep <;> cases hstep
    · exact h.of_unleased ⟨rfl, fun _ => rfl, fun _ => rfl⟩ (by simp) (by simp)
    · refine h.of_unleased .refl (by simp) ?_
      cases (m.booter b).err <;> simp
  | booting b => cases hstep
  | bootFailed b err =>
    cases hstep
    refine h.of_unleased ?_ (by simp) (by simp)
    split_ifs
    · exact unleased_modify (fun _ => rfl) fun _ => rfl
    · exact .refl
  | gate =>
    rw [Lifecycle.acquireStep] at hstep
    split_ifs at hstep <;> cases hstep
    · exact h.acquire (by simp) others_acquire (by simp) (by simp) (h.le n)
    · exact h.of_unleased .refl (by simp) (by simp)
  | slot =>
    rw [Lifecycle.acquireStep] at hstep
    split_ifs at hstep with hslots hfree
    · cases hstep
      -- there is no semaphore, so there are no slots to count
      have hmod := h.acquire (g := .acquire n .recheck) (f := id) (by simp) others_acquire
        (by simp) (absurd hslots) (h.le n)
      rwa [modify_id] at hmod
    · cases o <;> cases hstep
      · exact h.acquire (by simp) others_acquire (by simp) (by simp) hfree
      · exact h.pass rfl rfl
    · cases o <;> cases hstep
      exact h.pass rfl rfl
  | recheck =>
    cases hstep
    refine h.pass ?_ ?_ <;> split_ifs <;> rfl
  | readIdle | touch _ =>
    cases hstep
    exact h.pass rfl rfl
  | unslot =>
    cases hstep
    refine h.acquire (by simp) others_acquire (by simp) (fun hslots => ?_)
      ((Nat.sub_le _ _).trans (h.le n))
    have hpos := h.taken_pos rfl hslots
    simp
    omega
  | uncount err =>
    cases hstep
    exact h.acquire (by simp) (fun n' _ => ⟨rfl, rfl⟩) (by simp [Frame.counts])
      (by simp [Frame.occupies]) (h.le n)
  | grant =>
    cases hstep
    refine h.balance [{ service := n }] rfl (by simp) (by simp) (by simp) ?_ ?_ h.le
    · intro n'
      by_cases hn : n = n' <;> simp [Frame.counts, Lease.Unreleased]
    · intro n' _
      by_cases hn : n = n' <;> simp [Frame.occupies, Lease.Outstanding]

/-! ### The steps of a release -/

theorem countP_set_add {α : Type} {q : α → Bool} {xs : List α} {x : α} (hx : xs[l]? = some x)
    (y : α) :
    (xs.set l y).countP q + (if q x then 1 else 0) = xs.countP q + if q y then 1 else 0 := by
  obtain ⟨hl, rfl⟩ := List.getElem?_eq_some_iff.mp hx
  obtain ⟨xs₁, xs₂, hxs, -, hset⟩ : ∃ xs₁ xs₂, xs = xs₁ ++ xs[l] :: xs₂ ∧ xs₁.length = l ∧
    xs.set l y = xs₁ ++ y :: xs₂ := exists_of_set hl
  have hold := congrArg (countP q) hxs
  rw [hset]
  simp only [countP_append, countP_cons] at hold ⊢
  omega

/-- **The work of a release**: the thread that does it is alone, and changes the two numbers by
as much as the lease's part in them changes. -/
theorem LeaseInv.release {p : ReleasePoint} {x : LeaseStage}
    (h : LeaseInv M m (A ++ ([Frame.release l p] ++ B))) (hlease : m.leases[l]? = some lease)
    (hleases : m'.leases = m.leases.set l { lease with stage := x })
    (hentry : m'.entry = (m.modify lease.service f).entry)
    (hp : lease.stage.underWay = decide (p ≠ .enter)) (hg : g.works l = x.underWay)
    (hstage : ∀ l' q, g = .release l' q → l' = l ∧ q.stage = x)
    (hfree : ∀ n, g.counts n = false ∧ g.occupies n = false)
    (hcount : ∀ e, (f e).activeLeases + .ofNat (if lease.Unreleased lease.service then 1 else 0)
      = e.activeLeases +
        .ofNat (if { lease with stage := x }.Unreleased lease.service then 1 else 0))
    (htaken : M.slots lease.service ≠ 0 → (f (m.entry lease.service)).taken +
      (if lease.Outstanding lease.service then 1 else 0) = (m.entry lease.service).taken +
        if { lease with stage := x }.Outstanding lease.service then 1 else 0)
    (hle : (f (m.entry lease.service)).taken ≤ M.slots lease.service) :
    LeaseInv M m' (A ++ ([g] ++ B)) := by
  obtain ⟨hl, -⟩ := List.getElem?_eq_some_iff.mp hlease
  have hself : (Frame.release l p).works l = decide (p ≠ .enter) := by simp [Frame.works]
  have hnone : (∀ n, (Frame.release l p).counts n = false) ∧
      ∀ n, (Frame.release l p).occupies n = false := ⟨fun _ => rfl, fun _ => rfl⟩
  -- nobody else is at work on this release
  have hothers : A.countP (·.works l) + B.countP (·.works l) = 0 := by
    have hold := h.works l
    rw [hlease, elim_some, hp] at hold
    simp only [countP_append, countP_singleton, hself] at hold
    omega
  have hwork : ∀ l' ≠ l, (Frame.release l p).works l' = false ∧ g.works l' = false := by
    intro l' hne
    refine ⟨by simp [Frame.works, hne.symm], ?_⟩
    cases g with
    | release l'' q =>
      obtain ⟨rfl, -⟩ := hstage l'' q rfl
      simp [Frame.works, hne.symm]
    | start | stop | acquire | fire | shutdown | ret => rfl
  constructor
  · intro n
    have hold := h.count n
    have hset := congrArg Int32.ofNat
      (countP_set_add (q := (·.Unreleased n)) hlease { lease with stage := x })
    have hstep : (m'.entry n).activeLeases + .ofNat (if lease.Unreleased n then 1 else 0) =
        (m.entry n).activeLeases +
          .ofNat (if { lease with stage := x }.Unreleased n then 1 else 0) := by
      rw [hentry, entry_modify_apply]
      by_cases hn : n = lease.service
      · rw [if_pos hn, hn, hcount]
      · simp [hn, Ne.symm hn, Lease.Unreleased]
    simp only [Memory.unreleased, hleases, countP_append, countP_singleton, (hfree n).1, hnone.1 n,
      decide_eq_true_eq, Int32.ofNat_add] at hold hset ⊢
    grind
  · intro n hn
    have hold := h.taken n hn
    have hset := countP_set_add (q := (·.Outstanding n)) hlease { lease with stage := x }
    have hstep : (m'.entry n).taken + (if lease.Outstanding n then 1 else 0) =
        (m.entry n).taken + if { lease with stage := x }.Outstanding n then 1 else 0 := by
      rw [hentry, entry_modify_apply]
      by_cases hs : n = lease.service
      · rw [if_pos hs, hs, htaken (hs ▸ hn)]
      · simp [hs, Ne.symm hs, Lease.Outstanding]
    simp only [Memory.outstanding, hleases, countP_append, countP_singleton, (hfree n).2, hnone.2 n,
      decide_eq_true_eq] at hold hset ⊢
    split_ifs at hset hstep <;> omega
  · rw [hentry]
    exact h.le_modify hle
  · intro l'
    rw [hleases]
    by_cases hne : l' = l
    · subst hne
      rw [getElem?_set_self hl, elim_some]
      simp only [countP_append, countP_singleton, hg]
      omega
    · have hold := h.works l'
      rw [getElem?_set_ne (Ne.symm hne)]
      simp only [countP_append, countP_singleton, (hwork l' hne).1, (hwork l' hne).2]
        at hold ⊢
      exact hold
  · intro l' q hq hne
    rw [hleases]
    have hrest : .release l' q ∈ A ++ B →
        l' ≠ l ∧ .release l' q ∈ A ++ ([Frame.release l p] ++ B) := by
      intro hmem
      constructor
      · rintro rfl
        have hzero : (A ++ B).countP (·.works l') = 0 := by
          rw [countP_append]
          exact hothers
        exact countP_eq_zero.mp hzero _ hmem (by simp [Frame.works, hne])
      · exact mem_of_mem_rest hmem
    rcases mem_before.mp hq with rfl | hmem
    · obtain ⟨rfl, hq⟩ := hstage l' q rfl
      rw [getElem?_set_self hl, map_some, hq]
    · obtain ⟨hne', hold⟩ := hrest hmem
      rw [getElem?_set_ne hne'.symm]
      exact h.stage l' q hold hne

/-- **A release keeps the books.** -/
theorem LeaseInv.releaseStep {p : ReleasePoint}
    (h : LeaseInv M m (A ++ ([Frame.release l p] ++ B))) (hlease : m.leases[l]? = some lease)
    (hstep : releaseStep m l lease p = some (m', made)) : LeaseInv M m' (A ++ (made ++ B)) := by
  have hself : .release l p ∈ A ++ ([Frame.release l p] ++ B) := by simp
  have hstage : p ≠ .enter → lease.stage = p.stage := by
    intro hp
    have hmap := h.stage l p hself hp
    rw [hlease] at hmap
    exact some.inj hmap
  -- the lease is put back as it is
  have hsame : m.leases = m.leases.set l { lease with stage := lease.stage } := by
    obtain ⟨hl, rfl⟩ := List.getElem?_eq_some_iff.mp hlease
    exact (set_getElem_self hl).symm
  cases p with
  | enter =>
    cases hheld : lease.stage <;> simp only [Lifecycle.releaseStep, hheld] at hstep <;> cases hstep
    · exact h.release (f := id) hlease rfl (by simp [modify_id]) (by simp [hheld])
        (by simp [Frame.works]) (by simp) (fun _ => ⟨rfl, rfl⟩) (by simp [Lease.Unreleased, hheld])
        (by simp [Lease.Outstanding, hheld]) (h.le _)
    · exact h.of_unleased .refl (by simp) (by simp)
  | slot =>
    cases hstep
    have hbegun : lease.stage = .begun := hstage (by simp)
    refine h.release (f := fun e => { e with taken := e.taken - 1 }) hlease rfl rfl
      (by simp [hbegun]) (by simp [Frame.works]) (by simp) (fun _ => ⟨rfl, rfl⟩)
      (by simp [Lease.Unreleased, hbegun]) (fun hslots => ?_) ((Nat.sub_le _ _).trans (h.le _))
    have hmem : 0 < m.outstanding lease.service := countP_pos_iff.mpr
      ⟨lease, mem_of_getElem? hlease, by simp [Lease.Outstanding, hbegun]⟩
    have htaken := h.taken _ hslots
    simp [Lease.Outstanding, hbegun]
    omega
  | uncount =>
    cases hstep
    have hreturned : lease.stage = .returned := hstage (by simp)
    exact h.release (f := fun e => { e with activeLeases := e.activeLeases - 1 }) hlease rfl rfl
      (by simp [hreturned]) (by simp [Frame.works]) (by simp) (fun _ => ⟨rfl, rfl⟩)
      (by simp [Lease.Unreleased, hreturned]) (by simp [Lease.Outstanding, hreturned]) (h.le _)
  | readIdle =>
    cases hstep
    have hreleased : lease.stage = .released := hstage (by simp)
    exact h.release (f := id) hlease hsame (by simp [modify_id]) (by simp [hreleased])
      (by simp [Frame.works, hreleased]) (by simp [hreleased]) (fun _ => ⟨rfl, rfl⟩)
      (fun _ => rfl) (fun _ => rfl) (h.le _)
  | touch timer =>
    cases hstep
    have hreleased : lease.stage = .released := hstage (by simp)
    exact h.release (f := id) hlease rfl (by simp [modify_id]) (by simp [hreleased]) rfl (by simp)
      (fun _ => ⟨rfl, rfl⟩) (by simp [Lease.Unreleased, hreleased])
      (by simp [Lease.Outstanding, hreleased]) (h.le _)

/-! ### The result -/

/-- **Every step keeps the books.** -/
theorem LeaseInv.turn (h : LeaseInv M m (A ++ (used ++ B))) (hturn : Turn M m o used m' made) :
    LeaseInv M m' (A ++ (made ++ B)) := by
  cases turnStep_of_turn hturn with
  | start hstep | startRet hstep =>
    exact h.of_unleased (keeps_of_startStep hstep).toUnleased (by simp) (by simp)
  | stop hstep | stopRet hstep =>
    exact h.of_unleased (keeps_of_stopStep hstep).1.toUnleased (by simp) (by simp)
  | acquire hstep | acquireCall hstep | acquireRet hstep => exact h.acquireStep hstep
  | release hlease hstep | releaseRet hlease hstep => exact h.releaseStep hlease hstep
  | fire _ hstep | fireRet _ hstep =>
    exact h.of_unleased (keeps_of_fireStep hstep).1.toUnleased (by simp) (by simp)
  | bootRet hp =>
    refine h.of_unleased ⟨rfl, fun _ => rfl, fun _ => rfl⟩ (by simp) ?_
    rcases hp with ⟨-, rfl⟩ | ⟨text, -, rfl⟩ <;> simp
  | startCall | shutdown | shutdownRet | depRet | nextStop | leave =>
    exact h.of_unleased .refl (by simp) (by simp)

theorem leaseless_of_call {f : Frame} (h : call m c = some [f]) : f.Leaseless := by
  cases opening_of_call h <;> simp

theorem LeaseInv.call {f : Frame} (h : LeaseInv M m F) (hc : call m c = some [f]) :
    LeaseInv M m (F ++ [f]) := by
  have h' : LeaseInv M m (F ++ ([] ++ [])) := by simpa using h
  have hmade : ∀ g ∈ [f], g.Leaseless := forall_mem_singleton.mpr (leaseless_of_call hc)
  simpa using h'.of_unleased .refl (by simp) hmade

theorem leaseInv_of_reached {C : Condition} {s : State} (h : Reached M C s) :
    LeaseInv M s.memory s.frames :=
  frames_induction h leaseInv_initial (fun _ _ _ _ hinv => hinv.call)
    fun _ _ _ _ _ _ _ hinv _ => hinv.turn

/-- An `Acquire` of the service. -/
def Frame.acquires (n : String) : Frame → Bool
  | .acquire n' _ => n' = n
  | _ => false

/-- **Lease accounting is exact** in every interleaving: the count of a service is the number of
leases that were granted and not yet released, and of the `Acquire`s in progress that have
counted theirs, kept in a word of 32 bits – that number itself, while it is below 2³¹; no more
slots are taken than there are; and with no `Acquire` in progress the slots that are taken are
those of the leases that still have one. -/
theorem lease_accounting (M : DefaultManager) (n : String) (s : State) (h : Reached M Anyhow s) :
    ((s.memory.entry n).activeLeases =
        Int32.ofNat (s.memory.unreleased n + s.frames.countP (·.counts n)) ∧
      (s.memory.unreleased n + s.frames.countP (·.counts n) < 2 ^ 31 →
        (s.memory.entry n).activeLeases.toInt =
          s.memory.unreleased n + s.frames.countP (·.counts n))) ∧
      (s.memory.entry n).taken ≤ M.slots n ∧
      (M.slots n ≠ 0 → (∀ f ∈ s.frames, f.acquires n = false) →
        (s.memory.entry n).taken = s.memory.outstanding n) := by
  have hinv := leaseInv_of_reached h
  refine ⟨⟨hinv.count n, fun hlt => ?_⟩, hinv.le n, fun hslots hnone => ?_⟩
  · rw [hinv.count n, Int32.toInt_ofNat_of_lt hlt, Nat.cast_add]
  have hzero : s.frames.countP (·.occupies n) = 0 := by
    refine countP_eq_zero.mpr fun f hf => ?_
    have hf := hnone f hf
    cases f with
    | acquire n' p => simp_all [Frame.acquires]
    | start | stop | release | fire | shutdown | ret => simp [Frame.occupies]
  rw [hinv.taken n hslots, hzero, Nat.add_zero]

/-- A web server that two may use at a time, and that goes down when nobody does. -/
def web : ServiceSpec :=
  { name := "web", composeFile := "web.yml", maxConcurrent := 2, idleTimeout := 1 }

/-- Two leases are granted, a third `Acquire` gives up waiting for a slot, and the first lease is
released, twice. -/
def threeAcquires : List Action :=
  .call (.start "web") :: steps 0 10 ++ .call (.acquire "web") :: steps 1 8 ++
    .call (.acquire "web") :: steps 2 8 ++
    .call (.acquire "web") :: steps 3 2 ++ [.step 3 (some "context deadline exceeded")] ++
    .call (.release 0) :: .call (.release 0) :: steps 4 6 ++ steps 5 2

/-- One lease and the third `Acquire`, on its way out, are counted; when the latter has gone, one
slot is taken. -/
theorem lease_accounting_web :
    (∃ s, Reached (oneService web) Anyhow s ∧ s.memory.unreleased "web" = 1 ∧
      s.frames.countP (·.counts "web") = 1 ∧ (s.memory.entry "web").activeLeases.toInt = 2) ∧
    ∃ s, Reached (oneService web) Anyhow s ∧ (∀ f ∈ s.frames, f.acquires "web" = false) ∧
      (oneService web).slots "web" ≠ 0 ∧ (s.memory.entry "web").taken = 1 ∧
      s.memory.outstanding "web" = 1 := by
  constructor
  · obtain ⟨s, hs, hunreleased, hcounts⟩ : ∃ s, Reached (oneService web) Anyhow s ∧
        s.memory.unreleased "web" = 1 ∧ s.frames.countP (·.counts "web") = 1 :=
      ThreadSystem.Reach.exists_of_runMeeting threeAcquires (by decide +kernel)
    have hcount := (lease_accounting (oneService web) "web" s hs).1.2 (by omega)
    exact ⟨s, hs, hunreleased, hcounts, by omega⟩
  · obtain ⟨s, hs, hnone, houtstanding⟩ : ∃ s, Reached (oneService web) Anyhow s ∧
        (∀ f ∈ s.frames, f.acquires "web" = false) ∧
        s.memory.outstanding "web" = 1 :=
      ThreadSystem.Reach.exists_of_runMeeting (threeAcquires ++ steps 3 2) (by decide +kernel)
    have hslots : (oneService web).slots "web" ≠ 0 := by decide
    have htaken := (lease_accounting (oneService web) "web" s hs).2.2 hslots hnone
    exact ⟨s, hs, hnone, hslots, htaken.trans houtstanding, houtstanding⟩

/-! ### Beyond the largest count -/

theorem acquire_alone {spec : ServiceSpec} (hspec : M.services.lookup n = some spec)
    (hlazy : spec.lazyBoot = false) (hslots : M.slots n = 0)
    (hup : (m.entry n).state = .running) :
    (system M).Alone (m, [.acquire n .enter])
      ({ m.modify n fun e => { e with activeLeases := e.activeLeases + 1 } with
        leases := m.leases ++ [{ service := n }] }, []) := by
  have hup' : ((m.modify n fun e => { e with activeLeases := e.activeLeases + 1 }).entry n).state =
      .running := by
    rw [entry_modify_apply, if_pos rfl]
    exact hup
  have hgate : (system M).step m none [.acquire n .enter] = some (m, [.acquire n .gate]) := by
    simp [system, threadStep, Frame.step, acquireStep, hspec, hlazy]
  have hslot : (system M).step m none [.acquire n .gate] =
      some (m.modify n fun e => { e with activeLeases := e.activeLeases + 1 },
        [.acquire n .slot]) := by
    simp [system, threadStep, Frame.step, acquireStep, hup]
  have hrecheck : ∀ m, (system M).step m none [.acquire n .slot] =
      some (m, [.acquire n .recheck]) := fun m => by
    simp [system, threadStep, Frame.step, acquireStep, hslots]
  have hidle : ∀ m : Memory, (m.entry n).state = .running →
      (system M).step m none [.acquire n .recheck] = some (m, [.acquire n .readIdle]) :=
    fun m hm => by simp [system, threadStep, Frame.step, acquireStep, hm]
  exact .head none hgate <| .head none hslot <| .head none (hrecheck _) <|
    .head none (hidle _ hup') <| .head none rfl <| .head none rfl <| .head none rfl <|
    .head none rfl .refl

theorem exists_leases (k : ℕ) : ∃ s, Reached (oneService db) Anyhow s ∧
    (s.memory.entry "db").state = .running ∧ s.memory.unreleased "db" = k ∧
    s.frames.countP (·.counts "db") = 0 := by
  induction k with
  | zero =>
    exact ThreadSystem.Reach.exists_of_runMeeting (.call (.start "db") :: steps 0 9)
      (by decide +kernel)
  | succ k ih =>
    obtain ⟨⟨m, threads⟩, hs, hup, hk, hcounts⟩ := ih
    have hcall : Reached (oneService db) Anyhow ⟨m, threads ++ [[.acquire "db" .enter]]⟩ :=
      hs.next (a := .call (.acquire "db")) trivial rfl
    have hspec : (oneService db).services.lookup "db" = some db := rfl
    have hgrant := hcall.alone (fun _ _ _ _ _ => trivial) (acquire_alone hspec rfl rfl hup)
    refine ⟨_, hgrant, ?_, ?_, ?_⟩
    · simpa [Memory.modify] using hup
    · rw [Memory.unreleased, countP_append, ← hk]
      rfl
    · simpa [ThreadSystem.State.frames] using hcounts

/-- **The count ends with the words**: 2³¹ leases of the database are held, and the manager
counts -2³¹. -/
theorem lease_count_wrapped : ∃ s, Reached (oneService db) Anyhow s ∧
    s.memory.unreleased "db" = 2 ^ 31 ∧ s.frames.countP (·.counts "db") = 0 ∧
    (s.memory.entry "db").activeLeases.toInt = -2 ^ 31 := by
  obtain ⟨s, hs, -, hleases, hcounts⟩ := exists_leases (2 ^ 31)
  refine ⟨s, hs, hleases, hcounts, ?_⟩
  rw [(leaseInv_of_reached hs).count, hleases, hcounts]
  decide

end Containers.Lifecycle
