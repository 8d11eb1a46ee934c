import Containers.Distribution.Live

/-!
# What is tracked, and what is alive

A distributor forgets a container when it is alive and no longer tracked. That is kept within bounds
along every history (`Faithful`):

* a container that is alive is tracked as running or migrating, or the distributor has owned up to
  it – `Undistribute` returned an error about it, or a failed deployment to its place or a failed
  relocation from it was logged (`live_tracked_or_reported`);
* in a smooth history, where the executor, the local runtime and the registry do what they are
  asked, what is alive is exactly what is tracked (`live_iff_tracked`).

Both come out of one account of a `Distribute`. The deploy loop attempts a deployment to some places
and leaves the others alone (`RoundInv`); the reconciliation then tears down the previous placements
that were not attempted anew, and so does `Undistribute` all of them (`Swept`). That a plan decides
distinct names is what makes "its name was deployed, and its new host is this one" mean that a
deployment to this place was attempted.
-/

namespace Containers.Distribution

open Go Remote Scheduler DefaultDistributor Prog List

variable {dc : DistributedContainer} {cs : List DistributedContainer} {r : Round} {smooth : Prop}
  {opts : Options} {t t' t'' t₀ : History} {p : Place} {plans : List (List PlacementDecision)}
  {current : List DistributedContainer} {decisions : List PlacementDecision}
  {errs : List TeardownError} {err : Option String}

/-! ### Tracked lists -/

theorem tracked_append :
    Tracked (cs ++ [dc]) p ↔
      Tracked cs p ∨ stateNeedsTeardown dc.state = true ∧ dc.place = p := by
  simp only [Tracked, mem_append, mem_singleton]
  constructor
  · rintro ⟨e, he | rfl, hs, hp⟩
    · exact .inl ⟨e, he, hs, hp⟩
    · exact .inr ⟨hs, hp⟩
  · rintro (⟨e, he, hs, hp⟩ | ⟨hs, hp⟩)
    · exact ⟨e, .inl he, hs, hp⟩
    · exact ⟨dc, .inr rfl, hs, hp⟩

theorem Tracked.name_mem (h : Tracked cs p) : p.2 ∈ cs.map (·.requirement.name) := by
  obtain ⟨dc, hdc, -, rfl⟩ := h
  exact mem_map_of_mem (f := (·.requirement.name)) hdc

/-! ### The deploy loop -/

/-- A deployment to `p` was attempted in this round. -/
def Round.Attempted (r : Round) (p : Place) : Prop :=
  p.2 ∈ r.deployedThisRound ∧ ∃ dc ∈ r.containers, dc.place = p

/-- **The account of a round**, `done` being the decisions taken so far and `t₀` the history
it started from: a place to which a deployment was attempted is alive and tracked, or
reported – and gone, if things go smoothly; every other place is left alone. -/
structure RoundInv (smooth : Prop) (opts : Options) (t₀ : History)
    (done : List PlacementDecision) (r : Round) (t : History) : Prop where
  names : r.containers.map (·.requirement.name) = done.map (·.requirement.name)
  deployed : ∀ n ∈ r.deployedThisRound, n ∈ done.map (·.requirement.name)
  configured : ∀ p, live t p = true → Configured opts p
  tracked : ∀ p, Tracked r.containers p → r.Attempted p ∧ live t p = true
  attempted : ∀ p, r.Attempted p → ¬Tracked r.containers p →
    Reported t p ∧ (smooth → live t p = false)
  rest : ∀ p, ¬r.Attempted p → Untouched p t₀ t

section Step

variable {done : List PlacementDecision} {r r' : Round} {x : PlacementDecision}
  {dc : DistributedContainer}

/-- A decision leaves an entry. If it comes to a deployment, which `N` says, what happens is
confined to its place, and ends there in a container that is tracked and alive, or in a report;
otherwise nothing happens, and the entry is not alive. -/
theorem RoundInv.extend {N : Prop} (dc : DistributedContainer)
    (h : RoundInv smooth opts t₀ done r t)
    (hfresh : x.requirement.name ∉ done.map (·.requirement.name))
    (hreq : dc.requirement = x.requirement) (hcs : r'.containers = r.containers ++ [dc])
    (hds : ∀ n, n ∈ r'.deployedThisRound ↔ n ∈ r.deployedThisRound ∨ N ∧ n = dc.requirement.name)
    (hothers : ∀ q, ¬(N ∧ dc.place = q) → Untouched q t t')
    (hcfg : N → live t' dc.place = true → Configured opts dc.place)
    (hend : stateNeedsTeardown dc.state = true ∧ N ∧ live t' dc.place = true ∨
      stateNeedsTeardown dc.state = false ∧
        (N → Reported t' dc.place ∧ (smooth → live t' dc.place = false))) :
    RoundInv smooth opts t₀ (done ++ [x]) r' t' := by
  rw [← hreq] at hfresh
  -- the place is new to the round
  have hnew : ∀ q, Tracked r.containers q ∨ r.Attempted q → ¬(N ∧ dc.place = q) := by
    rintro q (hq | hq) ⟨-, rfl⟩
    · exact hfresh (h.names ▸ hq.name_mem)
    · exact hfresh (h.deployed _ hq.1)
  have hattempted : ∀ q, r'.Attempted q ↔ r.Attempted q ∨ N ∧ dc.place = q := by
    intro q
    simp only [Round.Attempted, hcs, hds, mem_append, mem_singleton]
    constructor
    · rintro ⟨hn, e, he | rfl, hp⟩
      · refine .inl ⟨hn.resolve_right fun hname => hfresh ?_, e, he, hp⟩
        rw [← h.names, ← hname.2, ← hp]
        exact mem_map_of_mem (f := (·.requirement.name)) he
      · subst hp
        exact .inr ⟨(hn.resolve_left fun hold => hfresh (h.deployed _ hold)).1, rfl⟩
    · rintro (⟨hn, e, he, hp⟩ | ⟨hN, rfl⟩)
      · exact ⟨.inl hn, e, .inl he, hp⟩
      · exact ⟨.inr ⟨hN, rfl⟩, dc, .inr rfl, rfl⟩
  have htracked : ∀ q, Tracked r'.containers q ↔
      Tracked r.containers q ∨ stateNeedsTeardown dc.state = true ∧ dc.place = q := by
    intro q
    rw [hcs, tracked_append]
  refine ⟨by simp [hcs, h.names, hreq], fun n hn => ?_, fun q hl => ?_, fun q hq => ?_,
    fun q ha hq => ?_, fun q ha => ?_⟩
  · rw [map_append]
    rcases (hds n).mp hn with hn | ⟨-, rfl⟩
    · exact mem_append_left _ (h.deployed n hn)
    · exact mem_append_right _ (by simp [hreq])
  · by_cases hq : N ∧ dc.place = q
    · obtain ⟨hN, rfl⟩ := hq
      exact hcfg hN hl
    · exact h.configured q ((hothers q hq).1 ▸ hl)
  · rcases (htracked q).mp hq with hq | ⟨hstate, rfl⟩
    · obtain ⟨ha, hl⟩ := h.tracked q hq
      exact ⟨(hattempted q).mpr (.inl ha), (hothers q (hnew q (.inl hq))).1.trans hl⟩
    · rcases hend with ⟨-, hN, hl⟩ | ⟨hfail, -⟩
      · exact ⟨(hattempted _).mpr (.inr ⟨hN, rfl⟩), hl⟩
      · cases hfail.symm.trans hstate
  · rcases (hattempted q).mp ha with ha | ⟨hN, rfl⟩
    · have hother := hothers q (hnew q (.inr ha))
      obtain ⟨hr, hs⟩ := h.attempted q ha fun h => hq ((htracked q).mpr (.inl h))
      exact ⟨hother.2 hr, fun hsm => hother.1.trans (hs hsm)⟩
    · rcases hend with ⟨hstate, -⟩ | ⟨-, hreport⟩
      · exact absurd ((htracked _).mpr (.inr ⟨hstate, rfl⟩)) hq
      · exact hreport hN
  · rw [hattempted q, not_or] at ha
    exact (h.rest q ha.1).trans (hothers q ha.2)

/-- **One turn of the deploy loop keeps the account.** -/
theorem wp_deployDecision (h : RoundInv smooth opts t₀ done r t)
    (hfresh : x.requirement.name ∉ done.map (·.requirement.name)) :
    (deployDecision opts r x).wp (Assume smooth)
      (fun r' t' => RoundInv smooth opts t₀ (done ++ [x]) r' t') t := by
  rw [deployDecision]
  refine wp_seam fun cancelled _ => ?_
  have hctx : ∀ q, Untouched q t (⟨.ctxErr, cancelled⟩ :: t) := fun q => untouched_cons rfl rfl
  -- a cancelled context and a decision without a host end before a deployment
  cases cancelled with
  | some err =>
    exact h.extend (N := False) _ hfresh rfl rfl (by simp [Round.fail])
      (fun q _ => hctx q) False.elim
      (.inr ⟨rfl, False.elim⟩)
  | none =>
    split_ifs with hscore
    · exact h.extend (N := False) _ hfresh rfl rfl (by simp [Round.fail])
        (fun q _ => hctx q) False.elim
        (.inr ⟨rfl, False.elim⟩)
    · refine (wp_deployContainer fun hl => h.configured _ ((hctx _).1 ▸ hl)).bind ?_
      rintro ⟨dc, err⟩ t' ⟨hsame, hdep⟩
      rw [← hsame.place_eq] at hdep
      have hothers : ∀ q, ¬(True ∧ dc.place = q) → Untouched q t t' := fun q hq =>
        (hctx q).trans (hdep.others q fun h => hq ⟨trivial, h.symm⟩)
      have hreq : dc.requirement = x.requirement := hsame.1
      have hnames : ∀ n, n ∈ x.requirement.name :: r.deployedThisRound ↔
          n ∈ r.deployedThisRound ∨ True ∧ n = dc.requirement.name := by
        simp [hreq, or_comm]
      cases err with
      | none =>
        exact h.extend { dc with state := .running } hfresh hreq rfl hnames hothers
          (fun _ => hdep.configured) (.inl ⟨rfl, trivial, hdep.started rfl⟩)
      | some err =>
        intro o _
        have hlog : ∀ q, Untouched q t'
            (⟨.log (.deployFailed dc.requirement.name dc.hostName err), o⟩ :: t') :=
          fun q => untouched_cons rfl rfl
        exact h.extend { dc with state := .failed, error := err } hfresh hreq rfl hnames
          (fun q hq => (hothers q hq).trans (hlog q))
          (fun _ hl => hdep.configured ((hlog _).1 ▸ hl))
          (.inr ⟨rfl, fun _ => ⟨Reported.of_log rfl (decide_eq_true rfl),
            fun hs => (hlog _).1.trans (hdep.smooth_gone hs (by simp))⟩⟩)

end Step

/-- **The whole deploy loop keeps the account**, when the plan decides distinct names. -/
theorem wp_deployLoop
    (hnodup : (decisions.map (·.requirement.name)).Nodup) (hcs : r.containers = [])
    (hds : r.deployedThisRound = []) (hcfg : ∀ p, live t p = true → Configured opts p) :
    (decisions.foldlM (deployDecision opts) r).wp (Assume smooth)
      (fun r' t' => RoundInv smooth opts t decisions r' t') t := by
  have hnone : ∀ p, ¬r.Attempted p := fun p ha => by simp [Round.Attempted, hds] at ha
  refine wp_foldlM (RoundInv smooth opts t) ?_ ?_
  · exact ⟨by simp [hcs], by simp [hds], hcfg, fun p hp => by simp [Tracked, hcs] at hp,
      fun p hp => absurd hp (hnone p), fun p _ => Untouched.refl p t⟩
  · intro done x rest r' t' hsplit h
    refine wp_deployDecision h fun hmem => ?_
    rw [hsplit, map_append, nodup_append] at hnodup
    exact hnodup.2.2 _ hmem _ (by simp) rfl

/-! ### The new hosts -/

theorem lookup_foldl_insert {h n : String} (hnodup : (current.map (·.requirement.name)).Nodup)
    (m : GoMap String String) :
    (current.foldl (fun m dc => m.insert dc.requirement.name (normHost dc.hostName)) m).lookup n =
        some h ↔
      (∃ dc ∈ current, dc.place = (h, n)) ∨
        n ∉ current.map (·.requirement.name) ∧ m.lookup n = some h := by
  induction current generalizing m with
  | nil => simp
  | cons dc rest ih =>
    rw [map_cons, nodup_cons] at hnodup
    rw [foldl_cons, ih hnodup.2]
    by_cases hname : n = dc.requirement.name
    · -- the entry at hand is the only one of its name
      subst hname
      have hrest : ¬∃ e ∈ rest, e.place = (h, dc.requirement.name) := by
        rintro ⟨e, he, hp⟩
        exact hnodup.1 ((Prod.mk.inj hp).2 ▸ mem_map_of_mem (f := (·.requirement.name)) he)
      rw [AList.lookup_insert, Option.some_inj]
      constructor
      · rintro (he | ⟨-, rfl⟩)
        · exact absurd he hrest
        · exact .inl ⟨dc, mem_cons_self, rfl⟩
      · rintro (⟨e, he, hp⟩ | ⟨hn, -⟩)
        · rcases mem_cons.mp he with rfl | he
          · exact .inr ⟨hnodup.1, (Prod.mk.inj hp).1⟩
          · exact absurd ⟨e, he, hp⟩ hrest
        · exact absurd mem_cons_self hn
    · have hplace : dc.place ≠ (h, n) := fun hp => hname (Prod.mk.inj hp).2.symm
      simp [hname, hplace]

/-- **A previous placement is kept in place exactly when a deployment to it was attempted
anew.** -/
theorem RoundInv.keptInPlace_iff {done : List PlacementDecision}
    (h : RoundInv smooth opts t₀ done r t) (hnodup : (done.map (·.requirement.name)).Nodup)
    (old : DistributedContainer) :
    keptInPlace r.containers r.deployedThisRound old = true ↔ r.Attempted old.place := by
  rw [keptInPlace, newHosts, Bool.and_eq_true, decide_eq_true_eq, decide_eq_true_eq,
    lookup_foldl_insert (h.names ▸ hnodup), Round.Attempted]
  simp [DistributedContainer.place]

/-! ### Sweeping -/

/-- **The account of a sweep** over a list of entries, tearing down those that `sel` selects:
every other place is left alone; what is alive at a selected one is covered – reported, or
about to be – and gone, if things go smoothly; what was covered stays so; nothing is
started. -/
structure Swept {β : Type} (smooth : Prop) (sel : DistributedContainer → Bool)
    (Covered : β → History → Place → Prop) (l : List DistributedContainer) (b : β) (t : History)
    (b' : β) (t' : History) : Prop where
  spared : ∀ p, (∀ dc ∈ l, sel dc = true → dc.place ≠ p) → Untouched p t t'
  notStarted : ∀ p, live t' p = true → live t p = true
  stays : ∀ p, Covered b t p → Covered b' t' p
  covered : ∀ dc ∈ l, sel dc = true → live t' dc.place = true → Covered b' t' dc.place
  smooth_gone : smooth → ∀ dc ∈ l, sel dc = true → live t' dc.place = false

section Sweep

variable {β : Type} {sel : DistributedContainer → Bool} {Covered : β → History → Place → Prop}
  {l l' : List DistributedContainer} {b b' b'' : β}

theorem Swept.nil : Swept smooth sel Covered [] b t b t :=
  ⟨fun p _ => Untouched.refl p t, fun _ => id, fun _ => id, by simp, by simp⟩

theorem Swept.append (h : Swept smooth sel Covered l b t b' t')
    (h' : Swept smooth sel Covered l' b' t' b'' t'') :
    Swept smooth sel Covered (l ++ l') b t b'' t'' where
  spared p hp := (h.spared p fun dc hdc => hp dc (mem_append_left _ hdc)).trans
    (h'.spared p fun dc hdc => hp dc (mem_append_right _ hdc))
  notStarted p hl := h.notStarted p (h'.notStarted p hl)
  stays p hc := h'.stays p (h.stays p hc)
  covered dc hdc hsel hl := by
    rcases mem_append.mp hdc with hdc | hdc
    · exact h'.stays _ (h.covered dc hdc hsel (h'.notStarted _ hl))
    · exact h'.covered dc hdc hsel hl
  smooth_gone hs dc hdc hsel := by
    rcases mem_append.mp hdc with hdc | hdc
    · have hgone := h.smooth_gone hs dc hdc hsel
      rw [Bool.eq_false_iff] at hgone ⊢
      exact fun hl => hgone (h'.notStarted _ hl)
    · exact h'.smooth_gone hs dc hdc hsel

theorem Swept.pass (hsel : sel dc = false) : Swept smooth sel Covered [dc] b t b t := by
  have hnot : ∀ {P : Prop}, sel dc = true → P := fun hs => by cases hsel.symm.trans hs
  exact ⟨fun p _ => Untouched.refl p t, fun _ => id, fun _ => id, forall_mem_singleton.mpr hnot,
    fun _ => forall_mem_singleton.mpr hnot⟩

theorem Swept.teardown (h : TornDown smooth dc.place t t' err) (hsaid : ∀ q, Untouched q t' t'')
    (hsel : sel dc = true) (hstays : ∀ p, Covered b t p → Covered b' t'' p)
    (hcovered : ∀ text, err = some text → Covered b' t'' dc.place) :
    Swept smooth sel Covered [dc] b t b' t'' where
  spared p hp := (h.others p (hp dc (mem_singleton_self _) hsel).symm).trans (hsaid p)
  notStarted p hl := by
    rw [(hsaid p).1] at hl
    by_cases hp : p = dc.place
    · subst hp
      exact h.notStarted hl
    · exact (h.others p hp).1 ▸ hl
  stays := hstays
  covered e he _ hl := by
    obtain rfl := mem_singleton.mp he
    cases err with
    | none => exact absurd ((hsaid _).1 ▸ hl) (by simp [h.gone rfl])
    | some text => exact hcovered text rfl
  smooth_gone hs e he _ := by
    obtain rfl := mem_singleton.mp he
    exact (hsaid _).1.trans (h.smooth_gone hs)

/-- **The rule for sweeps**: what one turn does, a whole sweep does. -/
theorem wp_sweep {f : β → DistributedContainer → Act β}
    (hcfg : ∀ p, live t p = true → Configured opts p)
    (hturn : ∀ b dc t, (live t dc.place = true → Configured opts dc.place) →
      (f b dc).wp (Assume smooth) (fun b' t' => Swept smooth sel Covered [dc] b t b' t') t) :
    (l.foldlM f b).wp (Assume smooth) (fun b' t' => Swept smooth sel Covered l b t b' t') t := by
  refine wp_foldlM (fun done => Swept smooth sel Covered done b t) Swept.nil ?_
  intro done dc rest b' t' _ h
  exact (hturn b' dc t' fun hl => hcfg _ (h.notStarted _ hl)).mono fun b'' t'' => h.append

end Sweep

theorem TornDown.reports (h : TornDown smooth p t t' err) {q : Place} (hr : Reported t q) :
    Reported t' q := by
  by_cases hq : q = p
  · subst hq
    exact h.reported hr
  · exact (h.others q hq).2 hr

/-- The previous placements that a reconciliation tears down. -/
def stale (current : List DistributedContainer) (deployedThisRound : List String)
    (old : DistributedContainer) : Bool :=
  stateNeedsTeardown old.state && !keptInPlace current deployedThisRound old

theorem stale_eq_not_skipped (current : List DistributedContainer) (deployedThisRound : List String)
    (old : DistributedContainer) :
    stale current deployedThisRound old =
      !(!stateNeedsTeardown old.state || keptInPlace current deployedThisRound old) := by
  rw [stale, Bool.not_or, Bool.not_not]

theorem wp_reconcileOne {deployedThisRound : List String} {old : DistributedContainer}
    (hcfg : live t old.place = true → Configured opts old.place) :
    (reconcileOne opts current deployedThisRound old).wp (Assume smooth)
      (fun b t' => Swept smooth (stale current deployedThisRound) (fun _ : Unit => Reported) [old]
        () t b t') t := by
  rw [reconcileOne]
  split_ifs with hskip
  · exact Swept.pass (by rw [stale_eq_not_skipped, hskip]; rfl)
  · have hsel : stale current deployedThisRound old = true := by
      rw [stale_eq_not_skipped, Bool.eq_false_iff.mpr hskip]
      rfl
    refine (wp_teardownContainer hcfg).bind fun err t' htorn => ?_
    cases err with
    | none =>
      exact Swept.teardown htorn (fun q => Untouched.refl q t') hsel (fun q => htorn.reports)
        fun text htext => absurd htext (by simp)
    | some text =>
      intro o _
      have hlog : ∀ q, Untouched q t'
          (⟨.log (.reconcileTeardownFailed old.requirement.name old.hostName text), o⟩ :: t') :=
        fun q => untouched_cons rfl rfl
      exact Swept.teardown htorn hlog hsel (fun q hr => (hlog q).2 (htorn.reports hr))
        fun _ _ => Reported.of_log rfl (decide_eq_true rfl)

/-- What `Undistribute` has covered so far: what was reported before, and the errors it is
going to return. -/
def ToReturn (errs : List TeardownError) (t : History) (p : Place) : Prop :=
  Reported t p ∨ ∃ e ∈ errs, e.place = p

theorem wp_undistributeOne
    (hcfg : live t dc.place = true → Configured opts dc.place) :
    (undistributeOne opts errs dc).wp (Assume smooth)
      (fun errs' t' => Swept smooth (fun dc => stateNeedsTeardown dc.state) ToReturn [dc]
        errs t errs' t') t := by
  rw [undistributeOne]
  split_ifs with hskip
  · exact Swept.pass (by simpa using hskip)
  · refine (wp_teardownContainer hcfg).bind fun err t' htorn => ?_
    cases err with
    | none =>
      exact Swept.teardown htorn (fun q => Untouched.refl q t') (by simpa using hskip)
        (fun q => Or.imp_left htorn.reports) fun text htext => absurd htext (by simp)
    | some text =>
      intro o _
      have hlog : ∀ q, Untouched q t' (⟨.log (.undistributeTeardownFailed dc.requirement.name
          dc.hostName text), o⟩ :: t') := fun q => untouched_cons rfl rfl
      refine Swept.teardown htorn hlog (by simpa using hskip) (fun q => ?_) fun _ _ => ?_
      · exact Or.imp (fun hr => (hlog q).2 (htorn.reports hr))
          fun ⟨e, he, hp⟩ => ⟨e, mem_append_left _ he, hp⟩
      · exact .inr ⟨_, mem_append_right _ (mem_singleton_self _), rfl⟩

/-! ### Operations -/

/-- **The distributor is faithful to its history**: what is alive is tracked or reported – and
if things go smoothly, what is alive is exactly what is tracked. -/
structure Faithful (smooth : Prop) (d : DefaultDistributor) (t : History) : Prop where
  configured : ∀ p, live t p = true → Configured d.opts p
  covered : ∀ p, live t p = true → Tracked d.containers p ∨ Reported t p
  exact : smooth → ∀ p, live t p = true ↔ Tracked d.containers p

variable {d d' : DefaultDistributor}

theorem Faithful.of_untouched (h : Faithful smooth d t) (ht : ∀ q, Untouched q t t')
    (hopts : d'.opts = d.opts) (hcs : ∀ p, Tracked d'.containers p ↔ Tracked d.containers p) :
    Faithful smooth d' t' where
  configured p hl := hopts ▸ h.configured p ((ht p).1 ▸ hl)
  covered p hl := (h.covered p ((ht p).1 ▸ hl)).imp (hcs p).mpr (ht p).2
  exact hs p := by rw [(ht p).1, h.exact hs p, hcs p]

theorem Faithful.of_round (h : Faithful smooth d t)
    (hnodup : (decisions.map (·.requirement.name)).Nodup)
    (hround : RoundInv smooth d.opts t decisions r t')
    (hswept : Swept smooth (stale r.containers r.deployedThisRound) (fun _ : Unit => Reported)
      d.containers () t' () t'') :
    Faithful smooth { d with containers := r.containers } t'' := by
  have hstale : ∀ old, stale r.containers r.deployedThisRound old = true ↔
      stateNeedsTeardown old.state = true ∧ ¬r.Attempted old.place := by
    intro old
    rw [stale, ← hround.keptInPlace_iff hnodup old]
    simp
  -- a place that was attempted anew is not swept
  have hspared : ∀ p, r.Attempted p → Untouched p t' t'' := fun p hp =>
    hswept.spared p fun old _ hsel heq => ((hstale old).mp hsel).2 (heq ▸ hp)
  have hdeployed : ∀ p, Tracked r.containers p → live t'' p = true := by
    intro p htracked
    obtain ⟨hp, hl⟩ := hround.tracked p htracked
    exact (hspared p hp).1.trans hl
  -- a place is attempted anew and then spared, or untouched by the round and then swept
  refine ⟨fun p hl => hround.configured p (hswept.notStarted p hl), fun p hl => ?_,
    fun hs p => ⟨fun hl => ?_, hdeployed p⟩⟩
  · by_cases hp : r.Attempted p
    · by_cases htracked : Tracked r.containers p
      · exact .inl htracked
      · exact .inr ((hspared p hp).2 (hround.attempted p hp htracked).1)
    · have hbefore : live t p = true := (hround.rest p hp).1 ▸ hswept.notStarted p hl
      rcases h.covered p hbefore with ⟨old, hold, hstate, rfl⟩ | hr
      · exact .inr (hswept.covered old hold ((hstale old).mpr ⟨hstate, hp⟩) hl)
      · exact .inr (hswept.stays p ((hround.rest p hp).2 hr))
  · by_cases hp : r.Attempted p
    · by_contra htracked
      have hgone := (hround.attempted p hp htracked).2 hs
      rw [(hspared p hp).1, hgone] at hl
      exact absurd hl (by simp)
    · have hbefore : live t p = true := (hround.rest p hp).1 ▸ hswept.notStarted p hl
      obtain ⟨old, hold, hstate, rfl⟩ := (h.exact hs p).mp hbefore
      rw [hswept.smooth_gone hs old hold ((hstale old).mpr ⟨hstate, hp⟩)] at hl
      exact absurd hl (by simp)

/-- The plans decide distinct names, and in a `smooth` history the seams succeed. -/
def Orderly (smooth : Prop) : History → Event Outcome → Prop :=
  fun _ e => NamesDistinct e ∧ (smooth → Succeeds e)

/-- **`Distribute` keeps a distributor faithful.** -/
theorem wp_distribute (h : Faithful smooth d t) (reqs : List ContainerRequirements) :
    (d.distribute reqs).wp (Orderly smooth) (fun r t' => Faithful smooth r.1 t') t := by
  rw [distribute]
  split_ifs
  · exact h
  · refine wp_seam fun result hresult => ?_
    have hplan : ∀ q, Untouched q t (⟨.scheduleBatch reqs, result⟩ :: t) :=
      fun q => untouched_cons rfl rfl
    have h' := h.of_untouched hplan rfl fun _ => Iff.rfl
    cases result with
    | error err => exact h'
    | ok plan =>
      have hnodup : (plan.decisions.map (·.requirement.name)).Nodup := hresult.1
      -- the deploy loop, then the reconciliation with the previous placement
      refine ((wp_deployLoop hnodup rfl rfl h'.configured).of_imp fun _ _ hS => hS.2).bind
        fun r t' hround => ?_
      refine ((wp_sweep hround.configured fun _ old t => wp_reconcileOne).of_imp
        fun _ _ hS => hS.2).bind fun _ t'' hswept => ?_
      exact h'.of_round hnodup hround hswept

theorem only_closeTunnels : (closeTunnels opts).Only Inert := by
  rw [closeTunnels]
  split_ifs
  · exact (only_seam (c := .closeAllTunnels) trivial).bind fun _ => only_pure _
  · exact only_pure _

theorem only_unmountVolumes : (unmountVolumes opts).Only Inert := by
  rw [unmountVolumes]
  split_ifs
  · exact (only_seam (c := .unmountAll) trivial).bind fun _ => only_pure _
  · exact only_pure _

theorem ToReturn.reported {o : Unit} (h : ToReturn errs t p) :
    Reported (⟨.undistributeReturns errs, o⟩ :: t) p := by
  rcases h with hr | ⟨e, he, hp⟩
  · exact hr.cons rfl
  · refine .inl ?_
    have hcovers : undistributeCovers ⟨.undistributeReturns errs, o⟩ p = true :=
      any_eq_true.mpr ⟨e, he, decide_eq_true hp⟩
    simp [since, makesLive, hcovers]

/-- **`Undistribute` keeps a distributor faithful.** -/
theorem wp_undistribute (h : Faithful smooth d t) :
    d.undistribute.wp (Assume smooth) (fun d' t' => Faithful smooth d' t') t := by
  have hsweep : (d.containers.foldlM (undistributeOne d.opts) []).wp
      (Assume smooth) (fun errs t' => Swept smooth (fun dc => stateNeedsTeardown dc.state) ToReturn
        d.containers [] t errs t') t :=
    wp_sweep h.configured fun _ _ _ => wp_undistributeOne
  refine hsweep.bind fun errs t₁ hswept => ?_
  refine (wp_of_inert only_closeTunnels t₁).bind fun _ t₂ htunnels => ?_
  refine (wp_of_inert only_unmountVolumes t₂).bind fun _ t₃ hvolumes => ?_
  intro o _
  have hafter : ∀ q, Untouched q t₁ (⟨.undistributeReturns errs, o⟩ :: t₃) := fun q =>
    ((htunnels q).trans (hvolumes q)).trans (untouched_cons rfl rfl)
  have hreturned : ∀ q, ToReturn errs t₁ q → Reported (⟨.undistributeReturns errs, o⟩ :: t₃) q :=
    fun q hq => ToReturn.reported (hq.imp_left fun hr => (hvolumes q).2 ((htunnels q).2 hr))
  refine ⟨fun q hl => ?_, fun q hl => ?_, fun hs q => ?_⟩
  · exact h.configured q (hswept.notStarted q ((hafter q).1 ▸ hl))
  · rw [(hafter q).1] at hl
    rcases h.covered q (hswept.notStarted q hl) with ⟨dc, hdc, hstate, rfl⟩ | hr
    · exact .inr (hreturned _ (hswept.covered dc hdc hstate hl))
    · exact .inr (hreturned q (hswept.stays q (.inl hr)))
  · -- nothing is tracked, and nothing is left
    have hnone : ¬Tracked [] q := by simp [Tracked]
    refine iff_of_false (fun hl => ?_) hnone
    rw [(hafter q).1] at hl
    obtain ⟨dc, hdc, hstate, rfl⟩ := (h.exact hs q).mp (hswept.notStarted q hl)
    rw [hswept.smooth_gone hs dc hdc hstate] at hl
    exact absurd hl (by simp)

/-! ### Failover -/

/-- **The calls that only ask and tell.** -/
def Asks : SeamCall → Prop
  | .getHost _ | .isReachable _ | .scheduleBatch _ | .log _ => True
  | _ => False

theorem Asks.inert {c : SeamCall} (h : Asks c) : Inert c := by
  cases c <;> trivial

theorem onlyAsks_findOffline (offline : List String) (dc : DistributedContainer) :
    (findOffline offline dc).Only Asks := by
  rw [findOffline]
  split_ifs
  · exact only_pure _
  · refine Only.bind (only_perform trivial) fun found => ?_
    cases found with
    | none => exact only_pure _
    | some host =>
      refine Only.bind (only_perform trivial) fun reachable => ?_
      cases reachable with
      | true => exact only_pure _
      | false => exact Only.bind (only_perform trivial) fun _ => only_pure _

/-- **What `CheckAndFailover` does**: it asks, and marks some containers as migrating. -/
theorem wp_checkAndFailover_asks {S : History → Event Outcome → Prop} {R : History → History → Prop}
    (hrefl : ∀ t, R t t) (hstep : ∀ t t' c (o : Outcome c), Asks c → R t t' → R t (⟨c, o⟩ :: t'))
    (t : History) :
    d.checkAndFailover.wp S (fun r t' => R t t' ∧ ∃ affected, r.1 =
      { d with containers := d.containers.map (markMigrating affected) }) t := by
  have hid : markMigrating [] = id := by
    funext dc
    simp [markMigrating]
  have hnone : d = ⟨d.opts, d.containers.map (markMigrating [])⟩ := by
    rw [hid, map_id]
  rw [checkAndFailover]
  split_ifs
  · exact ⟨hrefl t, [], hnone⟩
  · refine ((only_foldlM onlyAsks_findOffline _ _).wp hrefl hstep t).bind
      fun offline t₁ hscan => ?_
    split_ifs
    · exact ⟨hscan, [], hnone⟩
    · dsimp only
      split_ifs
      · exact ⟨hscan, _, rfl⟩
      · refine wp_seam fun result _ => ?_
        have hplan := hstep _ _ (.scheduleBatch _) result trivial hscan
        cases result with
        | error err => exact ⟨hplan, _, rfl⟩
        | ok plan => exact ⟨hplan, _, rfl⟩

theorem tracked_markMigrating {affected : List String} :
    Tracked (cs.map (markMigrating affected)) p ↔ Tracked cs p := by
  have hstate : ∀ dc, stateNeedsTeardown (markMigrating affected dc).state =
      stateNeedsTeardown dc.state := by
    intro dc
    rw [markMigrating]
    split_ifs with h
    · rw [h.2]
      rfl
    · rfl
  have hplace : ∀ dc, (markMigrating affected dc).place = dc.place := by
    intro dc
    rw [markMigrating]
    split_ifs <;> rfl
  simp [Tracked, hstate, hplace]

/-- **`CheckAndFailover` keeps a distributor faithful**: it starts and removes nothing. -/
theorem wp_checkAndFailover (h : Faithful smooth d t) :
    d.checkAndFailover.wp (Assume smooth) (fun r t' => Faithful smooth r.1 t') t := by
  refine (wp_checkAndFailover_asks (R := fun t t' => ∀ q, Untouched q t t')
    (fun t q => Untouched.refl q t)
    (fun _ _ _ o hc hR q => (hR q).trans (hc.inert.untouched o)) t).mono ?_
  rintro ⟨d', report⟩ t' ⟨huntouched, affected, rfl⟩
  exact h.of_untouched huntouched rfl fun _ => tracked_markMigrating

/-! ### Histories -/

/-- **Every operation keeps a distributor faithful.** -/
theorem wp_act (h : Faithful smooth d t) (op : Op) :
    (op.act d).wp (Orderly smooth) (fun d' t' => Faithful smooth d' t') t := by
  cases op with
  | distribute reqs =>
    rw [Op.act, wp_bind]
    exact wp_distribute h reqs
  | rebalance =>
    rw [Op.act, wp_bind, DefaultDistributor.rebalance]
    split_ifs
    · exact h
    · exact wp_distribute h _
  | undistribute => exact (wp_undistribute h).of_imp fun _ _ hS => hS.2
  | checkAndFailover =>
    rw [Op.act, wp_bind]
    exact (wp_checkAndFailover h).of_imp fun _ _ hS => hS.2

theorem faithful_after (smooth : Prop) (env : Env) (opts : Options) (ops : List Op)
    (hnames : ∀ e ∈ (after env opts ops).2, NamesDistinct e)
    (hsmooth : smooth → ∀ e ∈ (after env opts ops).2, Succeeds e) :
    Faithful smooth (after env opts ops).1 (after env opts ops).2 := by
  have hinit : Faithful smooth ⟨opts, []⟩ [] :=
    ⟨fun p hl => by simp [live] at hl, fun p hl => by simp [live] at hl,
      fun _ p => by simp [live, Tracked]⟩
  refine after_induction hinit (fun d t op h => wp_act h op) env ops
    (Trace.holds_of_forall fun e he => ⟨hnames e he, fun hs => hsmooth hs e he⟩)

/-- **No live container is forgotten in silence.** After every sequence of operations whose
plans decide distinct names, whatever the seams answered, a container that is alive – started
by a successful deployment and not removed since – is tracked under its name on its host as
running or migrating, or since it was started `Undistribute` has returned an error about it,
or a failed deployment to its place or a failed relocation from it has been logged. -/
theorem live_tracked_or_reported (env : Env) (opts : Options) (ops : List Op)
    (hnames : ∀ e ∈ (after env opts ops).2, NamesDistinct e) (p : Place)
    (hlive : live (after env opts ops).2 p = true) :
    Tracked (after env opts ops).1.containers p ∨
      since undistributeCovers (after env opts ops).2 p = true ∨
      since logsFailure (after env opts ops).2 p = true :=
  (faithful_after False env opts ops hnames (fun h => h.elim)).covered p hlive

/-- An environment that follows a script: the decisions of every round, how many of the
context checks pass, and what host `A` answers to a removal in the second round. -/
def scripted (plans : List (List PlacementDecision)) (checks : ℕ)
    (late : Except String CommandResult) : Env := fun t c =>
  let rounds := t.countP fun e => match e.call with
    | .scheduleBatch _ => true
    | _ => false
  match c with
  | .ctxErr =>
    let checked := t.countP fun e => match e.call with
      | .ctxErr => true
      | _ => false
    if checked < checks then none else some "context canceled"
  | .scheduleBatch _ => .ok { decisions := plans.getD rounds [] }
  | .getHost name => some ⟨{ name := name }, rfl⟩
  | .execute host (.remove _ _) => if rounds = 2 ∧ host.name = "A" then late else .ok {}
  | .execute _ (.run _ _ _ _) => .ok {}
  | .isReachable _ => true
  | .localStart _ | .localStop _ | .localRemove _ => none
  | .createTunnel _ _ => .ok none
  | .closeTunnel _ | .closeAllTunnels => none
  | .mount _ | .unmount _ | .unmountAll => none
  | .log _ | .undistributeReturns _ => ()

theorem scripted_answers_distinct
    (hplans : ∀ decisions ∈ plans, (decisions.map (·.requirement.name)).Nodup) (checks : ℕ)
    (late : Except String CommandResult) (t : History) (c : SeamCall) :
    NamesDistinct ⟨c, scripted plans checks late t c⟩ := by
  cases c with
  | scheduleBatch reqs =>
    change ((plans.getD _ []).map (·.requirement.name)).Nodup
    generalize t.countP _ = rounds
    rw [getD_eq_getElem?_getD]
    cases hround : plans[rounds]? with
    | none => exact nodup_nil
    | some decisions => exact hplans decisions (mem_of_getElem? hround)
  | _ => trivial

theorem scripted_namesDistinct
    (hplans : ∀ decisions ∈ plans, (decisions.map (·.requirement.name)).Nodup) (checks : ℕ)
    (late : Except String CommandResult) (opts : Options) (ops : List Op) :
    ∀ e ∈ (after (scripted plans checks late) opts ops).2, NamesDistinct e :=
  (after_answered _ opts ops).forall_of_answered (scripted_answers_distinct hplans checks late)

def remoteOnly : Options := { hostManager := true, executor := true, scheduler := true }

def web : ContainerRequirements := { name := "web", image := "nginx" }

def webOn (hostName : String) : PlacementDecision :=
  { requirement := web, hostName := hostName, score := 1 }

/-- `web` moves from `A` to `B`, and `A` does not answer the removal: the container there is
no longer tracked, no `Undistribute` has spoken of it, and the log has. -/
theorem live_tracked_or_reported_moved :
    let env := scripted [[webOn "A"], [webOn "B"]] 2 (.error "unreachable")
    let run := after env remoteOnly [.distribute [web], .distribute [web]]
    live run.2 ("A", "web") = true ∧
      (Tracked run.1.containers ("A", "web") ∨ since undistributeCovers run.2 ("A", "web") = true ∨
        since logsFailure run.2 ("A", "web") = true) := by
  have hlive : live (after (scripted [[webOn "A"], [webOn "B"]] 2 (.error "unreachable")) remoteOnly
      [.distribute [web], .distribute [web]]).2 ("A", "web") = true := by decide +kernel
  exact ⟨hlive, live_tracked_or_reported _ _ _ (scripted_namesDistinct (by decide) _ _ _ _) _ hlive⟩

/-- **Being tracked, or spoken of by `Undistribute`, is not all there is.** In the run of
`live_tracked_or_reported_moved` a container is alive that is neither. And where a plan
decides a name twice not even the log need speak of it: `web` moves to `B`, the context is
cancelled before its second decision, which names `A`, and the reconciliation takes it to
have been deployed there. -/
theorem live_forgotten :
    (let env := scripted [[webOn "A"], [webOn "B"]] 2 (.error "unreachable")
      let run := after env remoteOnly [.distribute [web], .distribute [web]]
      live run.2 ("A", "web") = true ∧ ¬Tracked run.1.containers ("A", "web") ∧
        since undistributeCovers run.2 ("A", "web") = false) ∧
    (let env := scripted [[webOn "A"], [webOn "B", webOn "A"]] 2 (.ok {})
      let run := after env remoteOnly [.distribute [web], .distribute [web, web]]
      live run.2 ("A", "web") = true ∧ ¬Tracked run.1.containers ("A", "web") ∧
        since undistributeCovers run.2 ("A", "web") = false ∧
        since logsFailure run.2 ("A", "web") = false) := by
  decide +kernel

/-! ### What a reconciliation spares -/

def decidedPlace (x : PlacementDecision) : Place := (normHost x.hostName, x.requirement.name)

/-- The host that the last of some places has for a name. -/
def lastHost (places : List Place) (name : String) : Option String :=
  (places.reverse.find? (·.2 = name)).map (·.1)

theorem lookup_newHosts (current : List DistributedContainer) (name : String) :
    (newHosts current).lookup name = lastHost (current.map (·.place)) name := by
  induction current using reverseRecOn with
  | nil => rfl
  | append_singleton current dc ih =>
    rw [newHosts, foldl_append, ← newHosts, lastHost, map_append, reverse_append]
    by_cases hname : dc.requirement.name = name
    · simp [DistributedContainer.place, hname]
    · rw [foldl_cons, foldl_nil, AList.lookup_insert_ne (Ne.symm hname), ih]
      simp [lastHost, DistributedContainer.place, hname]

/-- **The account of a round whose names may repeat**: each decision has left an entry, and what is
tracked was deployed. -/
structure Entered (opts : Options) (done : List PlacementDecision) (r : Round) (t : History) :
    Prop where
  places : r.containers.map (·.place) = done.map decidedPlace
  deployed : ∀ p, Tracked r.containers p → p.2 ∈ r.deployedThisRound
  configured : ∀ p, live t p = true → Configured opts p

theorem wp_deployDecision_entered {done : List PlacementDecision} {x : PlacementDecision}
    (h : Entered opts done r t) :
    (deployDecision opts r x).wp (Assume False)
    (fun r' t' => Entered opts (done ++ [x]) r' t') t := by
  -- an entry that is not running adds nothing that is tracked
  have hfail : ∀ {r' : Round} {t' : History} {dc : DistributedContainer} {err : String},
      r'.containers = r.containers → (∀ n ∈ r.deployedThisRound, n ∈ r'.deployedThisRound) →
      dc.place = decidedPlace x → (∀ p, live t' p = true → Configured opts p) →
      Entered opts (done ++ [x]) (r'.fail dc err) t' := by
    intro r' t' dc err hcs hds hplace hcfg
    have hplaces : ({ dc with state := .failed, error := err } : DistributedContainer).place =
        decidedPlace x := hplace
    refine ⟨by simp [Round.fail, hcs, h.places, hplaces], fun p hp => hds _ (h.deployed p ?_), hcfg⟩
    rw [Round.fail, hcs, tracked_append] at hp
    exact hp.resolve_right (by simp [stateNeedsTeardown])
  rw [deployDecision]
  refine wp_seam fun cancelled _ => ?_
  have hctx : ∀ q, live (⟨.ctxErr, cancelled⟩ :: t) q = true → Configured opts q := h.configured
  cases cancelled with
  | some err => exact hfail rfl (fun _ => id) rfl hctx
  | none =>
    split_ifs
    · exact hfail rfl (fun _ => id) rfl hctx
    · refine (wp_deployContainer (hctx _)).bind ?_
      rintro ⟨dc, err⟩ t' ⟨hsame, hdep⟩
      have hcfg : ∀ q, live t' q = true → Configured opts q := by
        intro q hl
        by_cases hq : q = decidedPlace x
        · subst hq
          exact hdep.configured hl
        · exact hctx q ((hdep.others q hq).1 ▸ hl)
      cases err with
      | some err => exact fun _ _ => hfail rfl (fun _ => mem_cons_of_mem _) hsame.place_eq hcfg
      | none =>
        have hplaces : ({ dc with state := .running } : DistributedContainer).place =
            decidedPlace x := hsame.place_eq
        refine ⟨by simp [Round.succeed, h.places, hplaces], fun p hp => ?_, hcfg⟩
        rw [Round.succeed, tracked_append] at hp
        rcases hp with hp | ⟨-, rfl⟩
        · exact mem_cons_of_mem _ (h.deployed p hp)
        · rw [hplaces]
          exact mem_cons_self

section Spares

variable (env : Env) (d : DefaultDistributor) (reqs : List ContainerRequirements)
  (plan : PlacementPlan)

/-- What the deployments of a `Distribute` with this plan come to. -/
abbrev deployments : Round × History :=
  (plan.decisions.foldlM (deployDecision d.opts)
    { summary := { totalContainers := reqs.length, hostUtilization := plan.hostSnapshots } }).run
    env
    [⟨.scheduleBatch reqs, .ok plan⟩]

/-- **A place that a reconciliation passes over**: nothing is tracked there from before, or the plan
decides for it last of all places for the name. -/
def Settled (prev : List DistributedContainer) (decisions : List PlacementDecision) (p : Place) :
    Prop := Tracked prev p → lastHost (decisions.map decidedPlace) p.2 = some p.1

end Spares

/-- A distributor that tracks `web` on `A`. -/
def webTracked : DefaultDistributor :=
  ⟨remoteOnly, [{ requirement := web, hostName := "A", state := .running }]⟩

/-- **In a smooth history, what is alive is what is tracked.** When the executor and the local
runtime succeed, the hosts of the decisions are known and the plans decide distinct names,
the live containers after every sequence of operations are exactly those tracked as running
or migrating – whatever the scheduler decides, the wiring comes to and the context says. -/
theorem live_iff_tracked (env : Env) (opts : Options) (ops : List Op)
    (hnames : ∀ e ∈ (after env opts ops).2, NamesDistinct e)
    (hsucceeds : ∀ e ∈ (after env opts ops).2, Succeeds e) (p : Place) :
    live (after env opts ops).2 p = true ↔ Tracked (after env opts ops).1.containers p :=
  (faithful_after True env opts ops hnames (fun _ => hsucceeds)).exact trivial p

/-- The same move, with an answer. -/
theorem live_iff_tracked_moved :
    let env := scripted [[webOn "A"], [webOn "B"]] 2 (.ok {})
    let run := after env remoteOnly [.distribute [web], .distribute [web]]
    (∀ p, live run.2 p = true ↔ Tracked run.1.containers p) ∧
      live run.2 ("B", "web") = true ∧ live run.2 ("A", "web") = false := by
  refine ⟨fun p => live_iff_tracked _ _ _ (scripted_namesDistinct (by decide) _ _ _ _) ?_ p,
    by decide +kernel, by decide +kernel⟩
  refine (after_answered _ _ _).forall_of_answered fun t c => ?_
  cases c with
  | execute host command =>
    cases command with
    | run => exact rfl
    | remove =>
      dsimp only [scripted]
      split_ifs <;> trivial
  | _ => trivial

end Containers.Distribution
