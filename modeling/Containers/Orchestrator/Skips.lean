import Containers.Orchestrator.Orchestrator

/-!
# Skipping for a failed dependency

A service is skipped if one of its dependencies has failed, and a name has failed if all its
instances have – but an instance whose compose file is missing is none. `StartAll` decides that with
three counters per name: the instances (`nameTotal`), which a missing file takes one off, those that
failed or were skipped (`nameFailedCount`), and a flag that is looked at again whenever one more
fails (`failedNames`).

What the flag says is exact (`Booted.flagged`): once all instances of a name have been met, it is up
if none of them came up and *the last one met* failed or was skipped. That is not quite what it is
for, in both directions:

* an instance whose file is missing, met after the last failure, lowers the total and does not look
  at the flag again: the name has failed, and what depends on it starts (`Masked`);
* an instance whose own dependency failed is skipped before its file is looked at: a name that is
  not configured here at all is flagged, and what depends on it is skipped (`Phantom`).

A service is treated as it should be if and only if it has a dependency that failed and is flagged,
or has a phantom and a masked one, or neither.
-/

namespace Containers.Orchestrator

open Go DefaultOrchestrator Prog Function List

variable {later level todo' : List Service}

/-! ### What the log says of a name -/

def Fate.isFailure : Fate → Bool
  | .skipped | .failed => true
  | .missing | .up => false

/-- What became of the instances of a name, in the order in which they were met. -/
def about (fates : List (Service × Fate)) (name : String) : List Fate :=
  (fates.filter fun e => e.1.name = name).map (·.2)

/-- None came up, and the last one met failed or was skipped. -/
def Flag (met : List Fate) : Prop := .up ∉ met ∧ ∃ f, met.getLast? = some f ∧ f.isFailure = true

variable {fates : List (Service × Fate)} {e : Service × Fate} {f : Fate} {b b' : Boot}
  {name : String}
  {s : Service} {met : List Fate} {services todo : List Service}

theorem about_append_self : about (fates ++ [(s, f)]) s.name = about fates s.name ++ [f] := by
  simp [about]

theorem about_append_of_ne (h : s.name ≠ name) :
    about (fates ++ [(s, f)]) name = about fates name := by
  simp [about, h]

theorem mem_about : f ∈ about fates name ↔ ∃ e ∈ fates, e.1.name = name ∧ e.2 = f := by
  simp [about]

theorem length_about : (about fates name).length = (fates.map (·.1)).countP (·.name = name) := by
  rw [about, length_map, countP_map, countP_eq_length_filter]
  rfl

theorem length_fates (met : List Fate) :
    met.length = met.countP Fate.isFailure + met.count .missing + met.count .up := by
  induction met with
  | nil => rfl
  | cons f met ih =>
    rw [countP_cons]
    rcases f <;> simp [Fate.isFailure] <;> omega

theorem flag_append_failure (h : f.isFailure = true) : Flag (met ++ [f]) ↔ .up ∉ met := by
  have hne : f ≠ .up := by
    rintro rfl
    cases h
  simp [Flag, h, hne.symm]

theorem not_flag_append (h : f.isFailure = false) : ¬Flag (met ++ [f]) := by
  rintro ⟨-, g, hg, hfail⟩
  rw [getLast?_concat] at hg
  cases hg
  rw [h] at hfail
  cases hfail

/-! ### The counters against the log -/

section Booted

variable {present : Service → Bool}

def Settled (todo : List Service) (s : Service) : Prop :=
  ∀ dep ∈ s.dependencies, ∀ t ∈ todo, t.name ≠ dep

def HasFlagged (fates : List (Service × Fate)) (s : Service) : Prop :=
  ∃ dep ∈ s.dependencies, Flag (about fates dep)

/-- **An entry of the log is as the level loop decides**: its dependencies had been met, it was
skipped if one of them was flagged, and otherwise what became of it tells whether its file is
present. -/
structure Judged (present : Service → Bool) (fates : List (Service × Fate)) (todo : List Service)
    (e : Service × Fate) : Prop where
  settled : Settled todo e.1
  skipped_iff : e.2 = .skipped ↔ HasFlagged fates e.1
  present_iff : e.2 ≠ .skipped → (present e.1 = true ↔ e.2 ≠ .missing)

/-- **The state of a boot**, with `todo` still to be met: the log and what is to be met are the
services, and the counters are what the log says. -/
structure Booted (services : List Service) (present : Service → Bool) (b : Boot)
    (todo : List Service) : Prop where
  perm : (b.fates.map (·.1) ++ todo).Perm services
  failedCount : ∀ d, b.nameFailedCount d = (about b.fates d).countP Fate.isFailure
  total : ∀ d, b.nameTotal d = services.countP (·.name = d) - (about b.fates d).count .missing
  flagged : ∀ d, b.failedNames d = true ↔ (∀ t ∈ todo, t.name ≠ d) ∧ Flag (about b.fates d)
  judged : ∀ e ∈ b.fates, Judged present b.fates todo e

theorem booted_init (services : List Service) (present : Service → Bool) :
    Booted services present (Boot.init services) services where
  perm := .refl services
  failedCount _ := rfl
  total d := by
    show (_ : ℤ) = _ - ((0 : ℕ) : ℤ)
    rfl
  flagged d := by simp [Boot.init, Flag, about]
  judged e he := by cases he

variable (h : Booted services present b todo)
include h

theorem Booted.of_perm (hperm : todo.Perm todo') : Booted services present b todo' where
  perm := (hperm.symm.append_left _).trans h.perm
  failedCount := h.failedCount
  total := h.total
  flagged d := by simp only [h.flagged d, hperm.mem_iff]
  judged e he := by
    obtain ⟨hsettled, hskip, hpresent⟩ := h.judged e he
    exact ⟨fun dep hdep t ht => hsettled dep hdep t (hperm.mem_iff.mpr ht), hskip, hpresent⟩

theorem Booted.dependencyFailed_iff {s : Service} (hs : Settled todo s) :
    b.dependencyFailed s = true ↔ HasFlagged b.fates s := by
  rw [Boot.dependencyFailed, any_eq_true]
  refine exists_congr fun dep => and_congr_right fun hdep => ?_
  rw [h.flagged dep]
  exact and_iff_right (hs dep hdep)

end Booted

/-! ### One more entry -/

section Step

variable {present : Service → Bool}

theorem hasFlagged_append {t : Service} (ht : Settled (s :: todo) t) :
    HasFlagged (fates ++ [(s, f)]) t ↔ HasFlagged fates t := by
  refine exists_congr fun dep => and_congr_right fun hdep => ?_
  rw [about_append_of_ne (ht dep hdep s mem_cons_self)]

theorem Settled.of_cons {t : Service} (ht : Settled (s :: todo) t) : Settled todo t :=
  fun dep hdep u hu => ht dep hdep u (mem_cons_of_mem s hu)

theorem Judged.append (he : Judged present fates (s :: todo) e) :
    Judged present (fates ++ [(s, f)]) todo e where
  settled := he.settled.of_cons
  skipped_iff := he.skipped_iff.trans (hasFlagged_append he.settled).symm
  present_iff := he.present_iff

theorem ite_update_of_ne {α : Type} {c : Prop} [Decidable c] {g : String → α} {v : α} {x y : String}
    (h : x ≠ y) : (if c then update g x v else g) y = g y := by
  split
  · rw [update_of_ne h.symm]
  · rfl

/-- **One more entry in the log**: the counters have to follow for the name it is about, and
nothing else changes. -/
theorem Booted.append (h : Booted services present b (s :: todo))
    (hfates : b'.fates = b.fates ++ [(s, f)])
    (hcount : b'.nameFailedCount = if f.isFailure then
      update b.nameFailedCount s.name (b.nameFailedCount s.name + 1)
      else b.nameFailedCount)
    (htotal : b'.nameTotal = if f = .missing then
      update b.nameTotal s.name (b.nameTotal s.name - 1) else b.nameTotal)
    (hflag : b'.failedNames =
      if f.isFailure ∧ b.nameFailedCount s.name + 1 ≥ b.nameTotal s.name then
        update b.failedNames s.name true else b.failedNames)
    (hjudged : Judged present b.fates (s :: todo) (s, f)) :
    Booted services present b' todo := by
  -- the name had not been flagged, with an instance of it still to come
  have hunflagged : b.failedNames s.name = false := by
    rw [Bool.eq_false_iff]
    exact fun hflagged => ((h.flagged s.name).mp hflagged).1 s mem_cons_self rfl
  refine ⟨?_, fun d => ?_, fun d => ?_, fun d => ?_, fun e he => ?_⟩
  · rw [hfates, map_append, append_assoc]
    exact h.perm
  · rw [hfates, hcount]
    by_cases hd : s.name = d
    · subst hd
      rw [about_append_self]
      rcases hfail : f.isFailure <;> simp [hfail, h.failedCount]
    · rw [about_append_of_ne hd, ← h.failedCount d, ite_update_of_ne hd]
  · rw [hfates, htotal]
    by_cases hd : s.name = d
    · subst hd
      rw [about_append_self]
      by_cases hmissing : f = .missing
      · subst hmissing
        simp [h.total]
        omega
      · simp [hmissing, h.total]
    · rw [about_append_of_ne hd, ← h.total d, ite_update_of_ne hd]
  · rw [hfates, hflag]
    by_cases hd : s.name = d
    · subst hd
      rw [about_append_self]
      rcases hfail : f.isFailure
      · rw [if_neg (by simp), hunflagged]
        simp [not_flag_append hfail]
      · -- all instances are failed or missing if the counters meet
        have hall : services.countP (·.name = s.name) = (about b.fates s.name).length + 1 +
            todo.countP (·.name = s.name) := by
          rw [length_about, ← h.perm.countP_eq]
          simp
          omega
        have hnone : (∀ t ∈ todo, t.name ≠ s.name) ↔ todo.countP (·.name = s.name) = 0 := by
          simp [countP_eq_zero]
        have hmeet : (∀ t ∈ todo, t.name ≠ s.name) ∧ Fate.up ∉ about b.fates s.name ↔
            b.nameFailedCount s.name + 1 ≥ b.nameTotal s.name := by
          rw [hnone, ← count_eq_zero, h.failedCount, h.total, hall,
            length_fates (about b.fates s.name)]
          omega
        rw [flag_append_failure hfail, hmeet]
        by_cases hge : b.nameFailedCount s.name + 1 ≥ b.nameTotal s.name
        · simp [hge]
        · simp [hge, hunflagged]
    · rw [ite_update_of_ne hd, about_append_of_ne hd, h.flagged d]
      simp [hd]
  · rw [hfates] at he ⊢
    rcases mem_append.mp he with he | he
    · exact (h.judged e he).append
    · rw [mem_singleton.mp he]
      exact hjudged.append

/-! ### The accumulators, entry by entry -/

theorem Boot.fail_fields (b : Boot) (s : Service) (text : String) :
    (b.fail s text).fates = b.fates ∧ (b.fail s text).nameFailedCount = b.nameFailedCount ∧
      (b.fail s text).nameTotal = b.nameTotal ∧ (b.fail s text).failedNames = b.failedNames := by
  rw [Boot.fail]
  split <;> exact ⟨rfl, rfl, rfl, rfl⟩

theorem Booted.failure (h : Booted services present b (s :: todo)) (text : String)
    (hfail : f.isFailure = true) (hjudged : Judged present b.fates (s :: todo) (s, f)) :
    Booted services present (((b.recordNameFailure s.name).fail s text).log s f) todo := by
  obtain ⟨hfates, hcount, htotal, hflag⟩ := (b.recordNameFailure s.name).fail_fields s text
  have hne : f ≠ .missing := by
    rintro rfl
    cases hfail
  refine h.append (congrArg (· ++ [(s, f)]) hfates) ?_ ?_ ?_ hjudged
  · rw [if_pos hfail]
    exact hcount
  · rw [if_neg hne]
    exact htotal
  · simp only [hfail, true_and]
    exact hflag

theorem Booted.skip (h : Booted services present b (s :: todo)) (hs : Settled (s :: todo) s)
    (hflagged : HasFlagged b.fates s) : Booted services present (b.skip s) todo :=
  h.failure _ rfl ⟨hs, iff_of_true rfl hflagged, absurd rfl⟩

theorem Booted.miss (h : Booted services present b (s :: todo)) (hs : Settled (s :: todo) s)
    (hflagged : ¬HasFlagged b.fates s) (habsent : present s = false) :
    Booted services present (b.miss s) todo :=
  h.append rfl rfl rfl rfl
    ⟨hs, iff_of_false (by simp) hflagged, fun _ => by simp [habsent]⟩

/-- What is launched: its dependencies have been met, none of them is flagged, and its file is
present. -/
structure Launchable (present : Service → Bool) (fates : List (Service × Fate))
    (todo : List Service) (s : Service) : Prop where
  settled : Settled todo s
  unflagged : ¬HasFlagged fates s
  present : present s = true

theorem Launchable.append {t : Service} (ht : Launchable present fates (s :: todo) t) :
    Launchable present (fates ++ [(s, f)]) todo t :=
  ⟨ht.settled.of_cons, mt (hasFlagged_append ht.settled).mp ht.unflagged, ht.present⟩

theorem Launchable.of_perm {t : Service} (ht : Launchable present fates todo t)
    (hperm : todo.Perm todo') :
    Launchable present fates todo' t :=
  ⟨fun dep hdep u hu => ht.settled dep hdep u (hperm.mem_iff.mpr hu), ht.unflagged, ht.present⟩

theorem Boot.drain_fates (b : Boot) (r : StartOutcome) :
    (b.drain r).fates = b.fates ++ [(r.svc, if r.err.isSome then .failed else .up)] := by
  rcases r with ⟨s, _ | err, started⟩
  · rfl
  · exact congrArg (· ++ [(s, Fate.failed)])
      ((b.recordNameFailure s.name).fail_fields s
        ("required service " ++ s.name ++ " failed: " ++ err)).1

theorem Booted.drain {r : StartOutcome} (h : Booted services present b (r.svc :: todo))
    (hr : Launchable present b.fates (r.svc :: todo) r.svc) :
    Booted services present (b.drain r) todo := by
  have hjudged : ∀ f, f = .failed ∨ f = .up →
      Judged present b.fates (r.svc :: todo) (r.svc, f) := by
    rintro f hf
    refine ⟨hr.settled, iff_of_false ?_ hr.unflagged, fun _ => iff_of_true hr.present ?_⟩ <;>
      rcases hf with rfl | rfl <;> simp
  rcases r with ⟨s, _ | err, started⟩
  · exact h.append rfl rfl rfl rfl (hjudged .up (.inr rfl))
  · have hfailed := h.failure ("required service " ++ s.name ++ " failed: " ++ err) rfl
      (hjudged .failed (.inl rfl))
    exact ⟨hfailed.perm, hfailed.failedCount, hfailed.total, hfailed.flagged, hfailed.judged⟩

end Step

/-! ### A whole boot -/

section Runs

variable {o : DefaultOrchestrator} {files : String → Bool} {S : History → Event Outcome → Prop}
  {t : History}

def DefaultOrchestrator.present (o : DefaultOrchestrator) (files : String → Bool) (s : Service) :
    Bool := files (o.composePath s)

/-- **One level is looked at**: what it launches is added to what was launched before it. -/
theorem booted_foldl_visit (level : List Service) (launched : List (Service × String))
    (h : Booted o.services (o.present files) b (launched.map (·.1) ++ (level ++ later)))
    (hlaunched : ∀ x ∈ launched, Launchable (o.present files) b.fates
      (launched.map (·.1) ++ (level ++ later)) x.1)
    (hlevel : ∀ s ∈ level, Settled (launched.map (·.1) ++ (level ++ later)) s) :
    Booted o.services (o.present files) (level.foldl (o.visit files) (b, launched)).1
        ((level.foldl (o.visit files) (b, launched)).2.map (·.1) ++ later) ∧
      ∀ x ∈ (level.foldl (o.visit files) (b, launched)).2, Launchable (o.present files)
        (level.foldl (o.visit files) (b, launched)).1.fates
        ((level.foldl (o.visit files) (b, launched)).2.map (·.1) ++ later) x.1 := by
  induction level generalizing b launched with
  | nil => exact ⟨h, hlaunched⟩
  | cons s level ih =>
    have hperm : (launched.map (·.1) ++ (s :: level ++ later)).Perm
        (s :: (launched.map (·.1) ++ (level ++ later))) := perm_middle
    have hs := hlevel s mem_cons_self
    have hs' : Settled (s :: (launched.map (·.1) ++ (level ++ later))) s :=
      fun dep hdep t ht => hs dep hdep t (hperm.mem_iff.mpr ht)
    have hrest : ∀ t ∈ level, Settled (launched.map (·.1) ++ (level ++ later)) t :=
      fun t ht dep hdep u hu => hlevel t (mem_cons_of_mem s ht) dep hdep u
        (hperm.mem_iff.mpr (mem_cons_of_mem s hu))
    rw [foldl_cons, visit]
    by_cases hfailed : b.dependencyFailed s = true
    · rw [if_pos hfailed]
      have hflagged := (h.dependencyFailed_iff hs).mp hfailed
      refine ih _ ((h.of_perm hperm).skip hs' hflagged) (fun x hx => ?_) hrest
      rw [Boot.skip, Boot.log, ((b.recordNameFailure s.name).fail_fields s _).1]
      exact ((hlaunched x hx).of_perm hperm).append
    · rw [if_neg hfailed]
      have hunflagged : ¬HasFlagged b.fates s := mt (h.dependencyFailed_iff hs).mpr hfailed
      by_cases hfile : files (o.composePath s) = true
      · rw [if_neg (by simp [hfile])]
        -- it stays among what is to be met, launched now
        have hsame : ((launched ++ [(s, o.composePath s)]).map (·.1)) ++ (level ++ later) =
            launched.map (·.1) ++ (s :: level ++ later) := by simp
        refine ih _ (hsame ▸ h) (fun x hx => hsame ▸ ?_) (fun t ht => hsame ▸ ?_)
        · rcases mem_append.mp hx with hx | hx
          · exact hlaunched x hx
          · rw [mem_singleton.mp hx]
            exact ⟨hs, hunflagged, hfile⟩
        · exact hlevel t (mem_cons_of_mem s ht)
      · rw [if_pos (by simp [hfile])]
        refine ih _ ((h.of_perm hperm).miss hs' hunflagged (Bool.eq_false_iff.mpr hfile))
          (fun x hx => ?_) hrest
        exact ((hlaunched x hx).of_perm hperm).append

theorem wp_start_svc (s : Service) (composeAbs : String) (t : History) :
    (o.start s composeAbs).wp S
      (fun r _ => r.svc = s ∧ ∀ st, r.started = some st → st.svc = s) t := by
  rw [start, wp_bind]
  refine wp_of_forall (fun up t => ?_) t
  rcases up with err | up
  · refine ⟨rfl, fun st hst => ?_⟩
    cases hst
  · rw [wp_bind]
    refine wp_of_forall (fun _ _ => ⟨rfl, fun st hst => ?_⟩) t
    cases hst
    rfl

theorem wp_drainAll {order : List (Service × String)}
    (h : Booted o.services (o.present files) b (order.map (·.1) ++ later)) (hready : ∀ x ∈ order,
      Launchable (o.present files) b.fates (order.map (·.1) ++ later) x.1) :
    (order.foldlM (fun b s => do let r ← o.start s.1 s.2; pure (b.drain r)) b : Act Boot).wp S
      (fun b' _ => Booted o.services (o.present files) b' later) t := by
  induction order generalizing b t with
  | nil => exact h
  | cons x order ih =>
    rw [foldlM_cons, wp_bind, wp_bind]
    refine (wp_start_svc x.1 x.2 t).mono ?_
    rintro r t' ⟨hr, -⟩
    have hhead : (x :: order).map (·.1) ++ later = r.svc :: (order.map (·.1) ++ later) := by
      rw [hr]
      rfl
    rw [hhead] at h hready
    have hx := hready x mem_cons_self
    rw [← hr] at hx
    refine ih (h.drain hx) fun y hy => ?_
    rw [Boot.drain_fates]
    exact (hready y (mem_cons_of_mem x hy)).append

/-- **One level is booted.** -/
theorem wp_bootLevel
    (h : Booted o.services (o.present files) b (level ++ later))
    (hlevel : ∀ s ∈ level, Settled (level ++ later) s) :
    (o.bootLevel files b level).wp S
      (fun b' _ => Booted o.services (o.present files) b' later) t := by
  obtain ⟨hb, hlaunched⟩ := booted_foldl_visit level [] h (fun x hx => by cases hx) hlevel
  rintro order -
  have hperm := (order.2.map (·.1)).symm.append_right later
  exact wp_drainAll (hb.of_perm hperm) fun x hx =>
    (hlaunched x (order.2.mem_iff.mp hx)).of_perm hperm

theorem IsLevelling.settled {services : List Service} {levels done later : List (List Service)}
    (h : IsLevelling services levels) (hsplit : levels = done ++ level :: later) :
    ∀ s ∈ level, Settled (level ++ later.flatten) s := by
  subst hsplit
  rintro s hs _ hdep t ht rfl
  have hmem : ∀ {l u}, l ∈ done ++ level :: later → u ∈ l → u ∈ services :=
    fun hl hu => h.perm.mem_iff.mp (mem_flatten.mpr ⟨_, hl, hu⟩)
  have hflat : t ∈ (level :: later).flatten := ht
  obtain ⟨lower, hlower, ht⟩ := mem_flatten.mp hflat
  obtain ⟨j, hj⟩ := getElem?_of_mem hlower
  have hk : (done ++ level :: later)[done.length]? = some level := by simp
  have hj' : (done ++ level :: later)[done.length + j]? = some lower := by
    rw [getElem?_append_right (Nat.le_add_right _ _), Nat.add_sub_cancel_left, hj]
  have hlt := (h.height _ _ hk s hs).lt_of_rel
    ⟨hmem (mem_of_getElem? hk) hs, hmem (mem_of_getElem? hj') ht, hdep⟩
    (h.height _ _ hj' t ht)
  omega

/-- **The rule of `StartAll`**: it is refused before anything is started; or it boots level after
level, with an invariant of the levels that are to come, and then is done or rolls back what came
up. -/
theorem wp_startAll (I : List (List Service) → Boot → History → Prop)
    {Q : StartAllResult → History → Prop}
    (hrefused : ∀ e, Q { err := some e, orch := o } t)
    (hinit : ∀ levels, IsLevelling o.services levels → I levels (Boot.init o.services) t)
    (hlevel : ∀ {levels done level later b t}, IsLevelling o.services levels →
      levels = done ++ level :: later → I (level :: later) b t →
      (o.bootLevel files b level).wp S (I later) t)
    (hrollback : ∀ {b t} e, I [] b t → (o.rollback b.started).wp S
      (fun x => Q { err := some e, orch := x.orch, boot := some b, down := x.down, left := x.left })
      t) (hdone : ∀ {b t}, I [] b t →
      Q { err := none, orch := b.started.foldl trackStarted o,
          boot := some b, left := b.started } t) : (o.startAll files).wp S Q t := by
  rw [startAll]
  rcases hlevels : computeStartLevels o.services with e | levels
  · exact hrefused _
  · obtain ⟨-, hlev⟩ := isLevelling_of_computeStartLevels hlevels
    refine wp.bind (wp_foldlM (fun done b t => ∀ later, levels = done ++ later →
      I later b t) ?_ ?_) ?_
    · rintro later rfl
      exact hinit _ hlev
    · intro done level rest b t hsplit hb
      refine (hlevel hlev hsplit (hb _ hsplit)).mono fun b' _ hb' later hlater => ?_
      rw [hsplit, append_assoc, append_cancel_left_eq] at hlater
      cases hlater
      exact hb'
    · intro b t' hb
      have hdone' := hb [] (append_nil levels).symm
      by_cases hfail : 0 < b.failures.length
      · rw [if_pos hfail, wp_bind]
        exact hrollback _ hdone'
      · rw [if_neg hfail]
        exact hdone hdone'

/-- **What holds of a boot** when its levels are through holds of the one that is returned. -/
theorem wp_startAll_boot (I : List (List Service) → Boot → Prop)
    (hinit : ∀ levels, IsLevelling o.services levels → I levels (Boot.init o.services))
    (hlevel : ∀ {levels done level later b t}, IsLevelling o.services levels →
      levels = done ++ level :: later → I (level :: later) b →
      (o.bootLevel files b level).wp S (fun b' _ => I later b') t) (t : History) :
    (o.startAll files).wp S (fun r _ => ∀ b, r.boot = some b → I [] b) t := by
  refine wp_startAll (fun later b _ => I later b) ?_ hinit hlevel ?_ ?_
  · rintro e b hb
    cases hb
  · intro b t e hI
    refine wp_of_forall (fun x _ b' hb' => ?_) t
    cases hb'
    exact hI
  · rintro b t hI b' hb'
    cases hb'
    exact hI

/-- **A boot** ends with all services in its log. -/
theorem wp_startAll_booted (t : History) :
    (o.startAll files).wp S
      (fun r _ => ∀ b, r.boot = some b → Booted o.services (o.present files) b []) t :=
  wp_startAll_boot (fun later b => Booted o.services (o.present files) b later.flatten)
    (fun _ hlev => (booted_init _ _).of_perm hlev.perm.symm)
    (fun hlev hsplit hb => wp_bootLevel hb (hlev.settled hsplit)) t

end Runs

/-! ### When a service is treated as it should be -/

section Skipped

variable {present : Service → Bool} {dep : String}

/-- **A dependency has failed**: it has an instance with a compose file that is present, and
every such instance failed or was itself skipped. -/
def AllFailed (present : Service → Bool) (fates : List (Service × Fate)) (dep : String) : Prop :=
  (∃ e ∈ fates, e.1.name = dep ∧ present e.1 = true) ∧
    ∀ e ∈ fates, e.1.name = dep → present e.1 = true → e.2 = .failed ∨ e.2 = .skipped

instance : Decidable (AllFailed present fates dep) := inferInstanceAs (Decidable (_ ∧ _))

/-- The dependency has failed, and the last of its instances to be met has no file. -/
def Masked (present : Service → Bool) (fates : List (Service × Fate)) (dep : String) : Prop :=
  AllFailed present fates dep ∧ (about fates dep).getLast? = some .missing

instance : Decidable (Masked present fates dep) := inferInstanceAs (Decidable (_ ∧ _))

/-- The dependency has no instance with a file, and the last to be met was skipped. -/
def Phantom (present : Service → Bool) (fates : List (Service × Fate)) (dep : String) : Prop :=
  (∀ e ∈ fates, e.1.name = dep → present e.1 = false) ∧
    (about fates dep).getLast? = some .skipped

theorem Judged.failed_or_skipped {todo : List Service} (he : Judged present fates todo e)
    (hp : present e.1 = true) (hup : e.2 ≠ .up) : e.2 = .failed ∨ e.2 = .skipped := by
  by_cases hskip : e.2 = .skipped
  · exact .inr hskip
  · have hmissing := (he.present_iff hskip).mp hp
    cases hf : e.2 with
    | skipped => exact absurd hf hskip
    | missing => exact absurd hf hmissing
    | failed => exact .inl rfl
    | up => exact absurd hf hup

theorem Judged.skipped_of_absent {todo : List Service} (he : Judged present fates todo e)
    (hp : present e.1 = false) (hfail : e.2.isFailure = true) : e.2 = .skipped := by
  by_contra hskip
  have hmissing : e.2 = .missing := by
    by_contra hne
    have hpresent := (he.present_iff hskip).mpr hne
    rw [hp] at hpresent
    cases hpresent
  rw [hmissing] at hfail
  cases hfail

theorem isFailure_of_ne (hmissing : f ≠ .missing) (hup : f ≠ .up) : f.isFailure = true := by
  cases f with
  | skipped | failed => rfl
  | missing => exact absurd rfl hmissing
  | up => exact absurd rfl hup

/-- **What is flagged**: a dependency that failed and is not masked, or a phantom. -/
theorem flag_about_iff (h : ∀ e ∈ fates, Judged present fates [] e) :
    Flag (about fates dep) ↔
      (AllFailed present fates dep ∧ ¬Masked present fates dep) ∨ Phantom present fates dep := by
  constructor
  · rintro ⟨hup, f, hlast, hfail⟩
    have hnotUp : ∀ e ∈ fates, e.1.name = dep → e.2 ≠ .up :=
      fun e he hname hf => hup (mem_about.mpr ⟨e, he, hname, hf⟩)
    by_cases hpresent : ∃ e ∈ fates, e.1.name = dep ∧ present e.1 = true
    · refine .inl ⟨⟨hpresent, fun e he hname hp => ?_⟩, ?_⟩
      · exact (h e he).failed_or_skipped hp (hnotUp e he hname)
      · rintro ⟨-, hmissing⟩
        rw [hlast] at hmissing
        cases hmissing
        cases hfail
    · have habsent : ∀ e ∈ fates, e.1.name = dep → present e.1 = false := by
        intro e he hname
        rw [Bool.eq_false_iff]
        exact fun hp => hpresent ⟨e, he, hname, hp⟩
      refine .inr ⟨habsent, ?_⟩
      obtain ⟨e, he, hname, rfl⟩ := mem_about.mp (mem_of_getLast? hlast)
      rw [hlast, (h e he).skipped_of_absent (habsent e he hname) hfail]
  · rintro (⟨⟨⟨e, he, hname, hp⟩, hall⟩, hmasked⟩ | ⟨habsent, hlast⟩)
    · have hne : about fates dep ≠ [] := ne_nil_of_mem (mem_about.mpr ⟨e, he, hname, rfl⟩)
      have hlast := getLast?_eq_some_getLast hne
      have hup : .up ∉ about fates dep := by
        intro hup
        obtain ⟨e', he', hname', hf⟩ := mem_about.mp hup
        have hp' := ((h e' he').present_iff (by simp [hf])).mpr (by simp [hf])
        rcases hall e' he' hname' hp' with hf' | hf' <;> simp [hf] at hf'
      refine ⟨hup, _, hlast, ?_⟩
      have hmissing : (about fates dep).getLast hne ≠ .missing :=
        fun hm => hmasked ⟨⟨⟨e, he, hname, hp⟩, hall⟩, by rw [hlast, hm]⟩
      have hnotUp : (about fates dep).getLast hne ≠ .up := fun hm => hup (hm ▸ getLast_mem hne)
      exact isFailure_of_ne hmissing hnotUp
    · refine ⟨fun hup => ?_, _, hlast, rfl⟩
      obtain ⟨e, he, hname, hf⟩ := mem_about.mp hup
      have hp := ((h e he).present_iff (by simp [hf])).mpr (by simp [hf])
      rw [habsent e he hname] at hp
      cases hp

theorem or_iff_or_iff {p q r : Prop} : (p ∨ q ↔ p ∨ r) ↔ p ∨ (q ↔ r) := by
  by_cases hp : p <;> simp [hp]

/-- **When a service is skipped as it should be**, in every boot: exactly if it has a dependency
that failed and is not masked, or has a phantom and a masked dependency, or neither. Every
service is in the log of the boot once. -/
theorem startAll_skips_iff (o : DefaultOrchestrator) (files : String → Bool) (env : Surroundings)
    (t : History) (b : Boot) (hb : ((o.startAll files).run env t).1.boot = some b) :
    (b.fates.map (·.1)).Perm o.services ∧
    ∀ e ∈ b.fates, o.present files e.1 = true →
      ((e.2 = .skipped ↔
          ∃ dep ∈ e.1.dependencies, AllFailed (o.present files) b.fates dep) ↔
        (∃ dep ∈ e.1.dependencies, AllFailed (o.present files) b.fates dep ∧
            ¬Masked (o.present files) b.fates dep) ∨
          ((∃ dep ∈ e.1.dependencies, Phantom (o.present files) b.fates dep) ↔
            ∃ dep ∈ e.1.dependencies, Masked (o.present files) b.fates dep)) := by
  have hbooted := (wp_startAll_booted (S := fun _ _ => True) t).of_run_answered env
    (fun _ _ => trivial) b hb
  refine ⟨by simpa using hbooted.perm, fun e he _ => ?_⟩
  have hskip : e.2 = .skipped ↔ (∃ dep ∈ e.1.dependencies, AllFailed (o.present files) b.fates dep ∧
      ¬Masked (o.present files) b.fates dep) ∨
        ∃ dep ∈ e.1.dependencies, Phantom (o.present files) b.fates dep := by
    simp only [(hbooted.judged e he).skipped_iff, HasFlagged, flag_about_iff hbooted.judged,
      and_or_left, exists_or]
  have hall : (∃ dep ∈ e.1.dependencies, AllFailed (o.present files) b.fates dep) ↔
      (∃ dep ∈ e.1.dependencies, AllFailed (o.present files) b.fates dep ∧
        ¬Masked (o.present files) b.fates dep) ∨
        ∃ dep ∈ e.1.dependencies, Masked (o.present files) b.fates dep := by
    simp only [← exists_or, ← and_or_left]
    refine exists_congr fun dep => and_congr_right fun _ => ⟨fun h => ?_, ?_⟩
    · exact (em (Masked (o.present files) b.fates dep)).symm.imp_left fun hm => ⟨h, hm⟩
    · exact fun h => h.elim And.left And.left
  rw [hskip, hall]
  exact or_iff_or_iff

end Skipped

/-! ### Two boots -/

/-- Surroundings in which all goes well but the compose ups of some files. -/
def failing (bad : List String) : Surroundings := fun _ c =>
  match c with
  | .listHosts => []
  | .execute _ _ => .ok {}
  | .copyDir _ _ _ => none
  | .localUp file _ => if file ∈ bad then some "compose up failed" else none
  | .localDown _ _ => none
  | .check _ => some { healthy := true }
  | .completed launched => ⟨launched, .refl launched⟩

def allBut (file : String) : String → Bool := fun f => f ≠ file

/-- Two stores of one name, the second of which starts one level later. -/
def twoStores : DefaultOrchestrator where
  services := [plain "db" "/a.yml" [], plain "seed" "/seed.yml" [],
    plain "db" "/b.yml" ["seed"], plain "api" "/api.yml" ["db"]]
  localOrch := true

def cachedStore : DefaultOrchestrator where
  services := [plain "db" "/a.yml" [], plain "cache" "/b.yml" ["db"],
    plain "api" "/api.yml" ["cache"]]
  localOrch := true

theorem fates_twoStores :
    (((twoStores.startAll (allBut "/b.yml")).run (failing ["/a.yml"]) []).1.boot.map (·.fates)) =
      some [(plain "db" "/a.yml" [], .failed), (plain "seed" "/seed.yml" [], .up),
        (plain "db" "/b.yml" ["seed"], .missing), (plain "api" "/api.yml" ["db"], .up)] := by
  decide +kernel

theorem fates_cachedStore :
    (((cachedStore.startAll (allBut "/b.yml")).run (failing ["/a.yml"]) []).1.boot.map (·.fates)) =
      some [(plain "db" "/a.yml" [], .failed), (plain "cache" "/b.yml" ["db"], .skipped),
        (plain "api" "/api.yml" ["cache"], .skipped)] := by
  decide +kernel

/-- **A dependency that failed does not stop what depends on it**: the one store with a file
fails, the other is found to have none one level later, and the service that needs a store
starts. **And one that is not configured here does**: the cache has no file, but is skipped for
the store before anybody looks. -/
theorem startAll_skips_wrongly :
    (∃ o files env b api, ((startAll o files).run env []).1.boot = some b ∧
      (api, Fate.up) ∈ b.fates ∧ o.present files api = true ∧
      ∃ dep ∈ api.dependencies, AllFailed (o.present files) b.fates dep) ∧
    ∃ o files env b api, ((startAll o files).run env []).1.boot = some b ∧
      (api, Fate.skipped) ∈ b.fates ∧ o.present files api = true ∧
      ¬∃ dep ∈ api.dependencies, AllFailed (o.present files) b.fates dep := by
  constructor
  · obtain ⟨b, hb, hfates⟩ := Option.map_eq_some_iff.mp fates_twoStores
    refine ⟨_, _, _, b, plain "api" "/api.yml" ["db"], hb, ?_⟩
    rw [hfates]
    decide +kernel
  · obtain ⟨b, hb, hfates⟩ := Option.map_eq_some_iff.mp fates_cachedStore
    refine ⟨_, _, _, b, plain "api" "/api.yml" ["cache"], hb, ?_⟩
    rw [hfates]
    decide +kernel

/-- With the store's second file in place, the failure of both reaches what depends on them. -/
theorem startAll_skips_both :
    ∃ b api, ((twoStores.startAll fun _ => true).run (failing ["/a.yml", "/b.yml"]) []).1.boot =
        some b ∧ (api, Fate.skipped) ∈ b.fates ∧
      ∃ dep ∈ api.dependencies, AllFailed (twoStores.present fun _ => true) b.fates dep := by
  have hrun : (((twoStores.startAll fun _ => true).run (failing ["/a.yml", "/b.yml"]) []).1.boot.map
      (·.fates)) = some [(plain "db" "/a.yml" [], .failed), (plain "seed" "/seed.yml" [], .up),
        (plain "db" "/b.yml" ["seed"], .failed), (plain "api" "/api.yml" ["db"], .skipped)] := by
    decide +kernel
  obtain ⟨b, hb, hfates⟩ := Option.map_eq_some_iff.mp hrun
  have hapi : (plain "api" "/api.yml" ["db"], Fate.skipped) ∈ b.fates := by
    rw [hfates]
    decide +kernel
  have hiff := (startAll_skips_iff twoStores (fun _ => true) _ [] b hb).2 _ hapi rfl
  refine ⟨b, _, hb, hapi, (hiff.mpr (.inl ⟨"db", mem_cons_self, ?_⟩)).mp rfl⟩
  rw [hfates]
  decide +kernel

end Containers.Orchestrator
