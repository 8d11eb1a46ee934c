import Containers.Boot.Verdicts

/-!
# What a boot takes back, and what a shutdown takes down

A boot that fails has to take back what it did. It notes that on the way – the projects that came
up, and whether it distributed – and what it has noted is what was done, along every path (`Owes`).
So a boot that returns an error ends with its rollback, and one that returns nil takes nothing back
(`bootAll_rolls_back`).

A shutdown has no notes. It derives the projects from the endpoints as the boot did, with the first
profile that it meets in a walk of its own. Where the endpoints of a compose file agree on their
profile, that is the profile of the boot, and nowhere else is every endpoint's own profile brought
up (`shutdown_mirrors_boot_iff`).
-/

namespace Containers.Boot

open Go BootManager Prog List

variable {bm : BootManager} {done : List String} {b b' : Booting} {t : History}
  {S : History → Event Outcome → Prop} {project : ComposeProject} {file : String}
  {env : Surroundings}

/-! ### What is owed -/

def cameUp : History → List ComposeProject
  | [] => []
  | ⟨.up project, none⟩ :: t => cameUp t ++ [project]
  | _ :: t => cameUp t

def triedUp : History → List ComposeProject
  | [] => []
  | ⟨.up project, _⟩ :: t => triedUp t ++ [project]
  | _ :: t => triedUp t

theorem cameUp_sublist (t : History) : (cameUp t).Sublist (triedUp t) := by
  induction t with
  | nil => exact .refl _
  | cons e t ih =>
    obtain ⟨c, o⟩ := e
    cases c with
    | up project =>
      cases o with
      | none => exact ih.append (.refl _)
      | some err => exact ih.trans (sublist_append_left _ _)
    | _ => exact ih

theorem mem_triedUp : project ∈ triedUp t ↔ .up project ∈ t.map (·.call) := by
  induction t with
  | nil => simp [triedUp]
  | cons e t ih =>
    obtain ⟨c, o⟩ := e
    cases c <;> simp [triedUp, ih, or_comm]

/-- **What is to be taken back**: the distribution, and then the projects that came up, the last one
first. -/
def toUndo (t : History) : List SeamCall :=
  (if t.any (·.call.kind = .distribute) then [.undistribute] else []) ++
    (cameUp t).reverse.map .down

/-- The project of a compose file, with the first profile that is met in a walk of its group. -/
def BootManager.Met (bm : BootManager) (project : ComposeProject) : Prop :=
  ∃ names walked, names.Perm bm.endpoints.keys ∧
    walked.Perm ((bm.groupByCompose names).index [] project.file) ∧
    bm.firstProfile walked = project.profile

/-- **What a boot has noted is what it has done**, `done` being the compose files that had their
turn. -/
structure Owes (bm : BootManager) (done : List String) (b : Booting) (t : History) : Prop where
  booted : b.booted = cameUp t
  distributed : b.distributed = t.any (·.call.kind = .distribute)
  calm : ∀ e ∈ t, e.call.kind ≠ .undo
  once : ((triedUp t).map (·.file)).Nodup
  files : ∀ p ∈ triedUp t, p.file ∈ done
  orchestrator : cameUp t ≠ [] → bm.orchestrator = true
  distributor : b.distributed = true → bm.distributor = true
  met : ∀ e ∈ t, ∀ project, e.call = .up project → bm.Met project

namespace Owes

theorem of_same (h : Owes bm done b t)
    (hb : b'.booted = b.booted ∧ b'.distributed = b.distributed) : Owes bm done b' t where
  booted := hb.1.trans h.booted
  distributed := hb.2.trans h.distributed
  calm := h.calm
  once := h.once
  files := h.files
  orchestrator := h.orchestrator
  distributor := hb.2 ▸ h.distributor
  met := h.met

theorem cons {c : SeamCall} {o : Outcome c} (h : Owes bm done b t)
    (hc : c.kind ∉ [.up, .distribute, .undo]) : Owes bm done b (⟨c, o⟩ :: t) := by
  have hcame : cameUp (⟨c, o⟩ :: t) = cameUp t ∧ triedUp (⟨c, o⟩ :: t) = triedUp t := by
    cases c with
    | up => simp at hc
    | _ => exact ⟨rfl, rfl⟩
  simp only [mem_cons, not_mem_nil, or_false, not_or] at hc
  refine ⟨h.booted.trans hcame.1.symm, ?_, forall_mem_cons.mpr ⟨hc.2.2, h.calm⟩,
    hcame.2 ▸ h.once, hcame.2 ▸ h.files, hcame.1 ▸ h.orchestrator, h.distributor,
    forall_mem_cons.mpr ⟨?_, h.met⟩⟩
  · rw [any_cons, h.distributed, decide_eq_false hc.2.1, Bool.false_or]
  · rintro _ rfl
    exact absurd rfl hc.1

theorem wp_foldl {α : Type} {f : Booting → α → Booting} {l : List α} (h : Owes bm done b t)
    (hf : ∀ b a, (f b a).booted = b.booted ∧ (f b a).distributed = b.distributed) :
    (pure (l.foldl f b) : Act Booting).wp S (fun b' t' => Owes bm done b' t') t := by
  induction l generalizing b with
  | nil => exact h
  | cons a l ih => exact ih (h.of_same (hf b a))

theorem tried {profile : String} {o : Option String} (h : Owes bm done b t) (hfile : file ∉ done) :
    ((triedUp (⟨.up ⟨file, profile⟩, o⟩ :: t)).map (·.file)).Nodup ∧
      ∀ p ∈ triedUp (⟨.up ⟨file, profile⟩, o⟩ :: t), p.file ∈ done ++ [file] := by
  constructor
  · rw [triedUp, map_append, map_singleton]
    refine nodup_append.mpr ⟨h.once, nodup_singleton _, ?_⟩
    rintro x hx y hy rfl
    obtain ⟨p, hp, rfl⟩ := mem_map.mp hx
    have hp := h.files p hp
    rw [show p.file = file from mem_singleton.mp hy] at hp
    exact hfile hp
  · intro p hp
    rcases mem_append.mp hp with hp | hp
    · exact mem_append_left _ (h.files p hp)
    · rw [mem_singleton.mp hp]
      exact mem_append_right _ (mem_singleton_self _)

theorem broke {profile err : String} (h : Owes bm done b t) (hfile : file ∉ done)
    (hmet : bm.Met ⟨file, profile⟩) :
    Owes bm (done ++ [file]) b (⟨.up ⟨file, profile⟩, some err⟩ :: t) where
  booted := h.booted
  distributed := h.distributed
  calm := forall_mem_cons.mpr ⟨by simp, h.calm⟩
  once := (h.tried hfile).1
  files := (h.tried hfile).2
  orchestrator := h.orchestrator
  distributor := h.distributor
  met := forall_mem_cons.mpr ⟨by rintro _ ⟨⟩; exact hmet, h.met⟩

theorem raised {profile : String} (h : Owes bm done b t) (horchestrator : bm.orchestrator = true)
    (hfile : file ∉ done) (hmet : bm.Met ⟨file, profile⟩) :
    Owes bm (done ++ [file]) { b with booted := b.booted ++ [⟨file, profile⟩] }
      (⟨.up ⟨file, profile⟩, none⟩ :: t) where
  booted := congrArg (· ++ [ComposeProject.mk file profile]) h.booted
  distributed := h.distributed
  calm := forall_mem_cons.mpr ⟨by simp, h.calm⟩
  once := (h.tried hfile).1
  files := (h.tried hfile).2
  orchestrator _ := horchestrator
  distributor := h.distributor
  met := forall_mem_cons.mpr ⟨by rintro _ ⟨⟩; exact hmet, h.met⟩

theorem distribute {names : List String} {r : ℤ × Option String} (h : Owes bm done b t)
    (hdistributor : bm.distributor = true) :
    Owes bm done { b with distributed := true } (⟨.distribute names, r⟩ :: t) where
  booted := h.booted
  distributed := by simp
  calm := forall_mem_cons.mpr ⟨by simp, h.calm⟩
  once := h.once
  files := h.files
  orchestrator := h.orchestrator
  distributor _ := hdistributor
  met := forall_mem_cons.mpr ⟨by simp, h.met⟩

end Owes

/-! ### The phases keep the notes -/

theorem wp_discoveryPhase_owes (h : Owes bm done b t) :
    (bm.discoveryPhase b).wp S (fun b' t' => Owes bm done b' t') t := by
  refine wp_rangeEndpoints fun order _ => wp_foldlM (fun _ b => Owes bm done b)
    (h.cons (by simp)) fun _ name _ b t _ h => ?_
  unfold discoverOne
  split_ifs
  · exact h.of_same ⟨rfl, rfl⟩
  · refine wp_seam ?_
    rintro (_ | _ | _) <;> exact (h.cons (by simp)).of_same ⟨rfl, rfl⟩
  · exact h

theorem wp_composePhase_owes (h : Owes bm [] b t) :
    (bm.composePhase b).wp S (fun b' t' => ∃ files, Owes bm files b' t') t := by
  refine wp_rangeEndpoints fun names hnames => wp_seam ?_
  rintro ⟨files, hfiles⟩
  split_ifs with horchestrator
  · exact ⟨[], (h.cons (by simp)).cons (by simp)⟩
  refine (wp_foldlM (Owes bm) ((h.cons (by simp)).cons (by simp)) ?_).mono
    fun b' t' h' => ⟨files, h'⟩
  rintro turned x rest b t rfl h
  have hx : x ∉ turned := fun hx => (nodup_append.mp
    (hfiles.nodup_iff.mpr (bm.groupByCompose names).keys_nodup)).2.2 x hx x mem_cons_self rfl
  refine wp_seam fun walked => wp_seam ?_
  have hgroup := h.cons (o := walked) (by simp)
  have hmet : bm.Met ⟨x, bm.firstProfile walked.1⟩ := ⟨names, walked.1, hnames, walked.2, rfl⟩
  rintro (_ | err)
  · refine wp_seam fun order =>
      Owes.wp_foldl (.cons (hgroup.raised (by simpa using horchestrator) hx hmet)
      (by simp)) fun b name => ?_
    unfold startGroup
    split_ifs <;> exact ⟨rfl, rfl⟩
  · exact wp_seam fun order =>
      Owes.wp_foldl (.cons (hgroup.broke hx hmet) (by simp)) fun _ _ => ⟨rfl, rfl⟩

theorem wp_distributePhase_owes (h : Owes bm done b t) :
    (bm.distributePhase b).wp S (fun b' t' => Owes bm done b' t') t := by
  unfold distributePhase
  split_ifs with hdistributor
  · exact h
  refine wp_rangeEndpoints fun order _ => ?_
  dsimp only
  split_ifs
  · exact h.cons (by simp)
  refine wp_seam fun r =>
    Owes.wp_foldl (.distribute (h.cons (by simp)) (by simpa using hdistributor))
    fun b x => ?_
  unfold attributeDeployed
  split_ifs <;> exact ⟨rfl, rfl⟩

theorem wp_remotePhase_owes (h : Owes bm done b t) :
    (bm.remotePhase b).wp S (fun b' t' => Owes bm done b' t') t := by
  refine wp_rangeEndpoints fun order _ => Owes.wp_foldl (h.cons (by simp)) fun b name => ?_
  unfold leaveRemote
  split_ifs <;> exact ⟨rfl, rfl⟩

theorem wp_healthPhase_owes (h : Owes bm done b t) :
    (bm.healthPhase b).wp S (fun b' t' => Owes bm done b' t') t := by
  unfold healthPhase healthCheckAll
  split_ifs
  · exact h
  rw [wp_bind]
  refine wp_rangeEndpoints fun order _ => wp_seam fun results => wp_seam fun names =>
    Owes.wp_foldl (.cons (.cons (h.cons (by simp)) (by simp)) (by simp)) fun b name => ?_
  unfold failHealth uncount
  split_ifs
  · exact ⟨rfl, rfl⟩
  · split <;> exact ⟨rfl, rfl⟩

/-! ### The rollback -/

/-- **The rollback takes back what is owed**, and makes no other call. -/
theorem wp_rollback (h : Owes bm done b t) :
    (bm.rollback b).wp S (fun _ t' => Trace.Makes (toUndo t) t t') t := by
  have hdowns : ∀ cs t₁, Trace.Makes cs t t₁ →
      (if bm.orchestrator = true then b.booted.reverse.foldlM
        (fun _ project => do let _ ← seam (.down project)) () else pure ()).wp S
        (fun _ => Trace.Makes (cs ++ (cameUp t).reverse.map SeamCall.down) t) t₁ := by
    intro cs t₁ ht₁
    split_ifs with horchestrator
    · rw [h.booted]
      refine wp_foldlM (fun turned _ => Trace.Makes (cs ++ turned.map SeamCall.down) t)
        (by simpa using ht₁) fun turned x _ _ t₂ _ ht₂ => wp_seam fun r => ?_
      have hnext := ht₂.snoc (c := .down x) r
      rwa [append_assoc, ← map_singleton, ← map_append] at hnext
    · have hnone : cameUp t = [] := by
        by_contra hsome
        exact horchestrator (h.orchestrator hsome)
      simpa [hnone] using ht₁
  unfold rollback toUndo
  rw [← h.distributed]
  by_cases hdistributed : b.distributed = true
  · simp only [hdistributed, h.distributor hdistributed]
    exact wp_seam fun r => hdowns [.undistribute] _ ⟨[_], rfl, rfl⟩
  · simp only [hdistributed]
    exact hdowns [] t ⟨[], rfl, rfl⟩

/-- A boot that has ended: the calls before its rollback take nothing back, and the rollback takes
back what they call for if the boot has failed. -/
def RolledBack (bm : BootManager) (r : Report) (t : History) : Prop :=
  ∃ before, (∀ e ∈ before, e.call.kind ≠ .undo) ∧ ((triedUp before).map (·.file)).Nodup ∧
    (∀ e ∈ before, ∀ project, e.call = .up project → bm.Met project) ∧
    Trace.Makes (if r.err = none then [] else toUndo before) before t

theorem wp_rollback_report {r : Report} (h : Owes bm done b t) (hr : r.err ≠ none) :
    (bm.rollback b >>= fun _ => pure r).wp S (RolledBack bm) t := by
  refine (wp_rollback h).bind fun _ t' ht' => ⟨t, h.calm, h.once, h.met, ?_⟩
  rwa [if_neg hr]

theorem wp_bootAll_rolledBack : bm.bootAll.wp S (RolledBack bm) [] := by
  have hinit : Owes bm [] {} [] :=
    ⟨rfl, rfl, by simp, nodup_nil, by simp [triedUp], by simp [cameUp], by simp, by simp⟩
  refine (wp_discoveryPhase_owes hinit).bind fun b₁ t₁ h₁ => wp_seam ?_
  rintro (_ | err)
  swap
  · exact wp_rollback_report (h₁.cons (by simp)) (by simp)
  refine (wp_composePhase_owes (h₁.cons (by simp))).bind ?_
  rintro b₂ t₂ ⟨files, h₂⟩
  refine wp_seam ?_
  rintro (_ | err)
  swap
  · exact wp_rollback_report (h₂.cons (by simp)) (by simp)
  refine (wp_distributePhase_owes (h₂.cons (by simp))).bind fun b₃ t₃ h₃ => ?_
  refine (wp_remotePhase_owes h₃).bind fun b₄ t₄ h₄ => wp_seam ?_
  rintro (_ | err)
  swap
  · exact wp_rollback_report (h₄.cons (by simp)) (by simp)
  refine (wp_healthPhase_owes (h₄.cons (by simp))).bind fun b₅ t₅ h₅ => ?_
  unfold conclude
  split_ifs
  · exact wp_rollback_report h₅ (by simp)
  · exact ⟨t₅, h₅.calm, h₅.once, h₅.met, [], rfl, rfl⟩

/-- **A failed boot is rolled back.** Whatever the endpoints, the orders of the walks, the answers
and the point of a cancellation: the calls of a boot are those before its rollback, which take
nothing back, and the rollback. If the boot returns nil, the rollback is empty. If it returns an
error, the rollback is an `Undistribute` if the boot has distributed, and then a `Down` for every
project that came up – they are distinct – in the reverse order. -/
theorem bootAll_rolls_back (bm : BootManager) (env : Surroundings) :
    ∃ before rollback, (bm.bootAll.run env []).2 = rollback ++ before ∧
      (∀ e ∈ before, e.call.kind ≠ .undo) ∧ (cameUp before).Nodup ∧
      rollback.reverse.map (·.call) =
        if (bm.bootAll.run env []).1.err = none then [] else toUndo before := by
  have hwp : bm.bootAll.wp (fun _ _ => True) (RolledBack bm) [] := wp_bootAll_rolledBack
  obtain ⟨before, hcalm, honce, -, rollback, htrace, hcalls⟩ :=
    hwp.of_run_answered env fun _ _ => trivial
  exact ⟨before, rollback, htrace, hcalm, (cameUp_sublist before).nodup honce.of_map, hcalls⟩

/-! ### The shutdown -/

def BootManager.ownProject (bm : BootManager) (name : String) : ComposeProject :=
  ⟨(bm.endpoint name).composeFile, (bm.endpoint name).profile⟩

/-- There are groups to bring up, and the project is that of an endpoint of one. -/
def BootManager.Brings (bm : BootManager) (project : ComposeProject) : Prop :=
  bm.orchestrator = true ∧ ∃ name, bm.grouped name = true ∧ bm.ownProject name = project

/-- The project is that of every endpoint of its compose file. -/
def BootManager.Common (bm : BootManager) (project : ComposeProject) : Prop :=
  ∀ name, bm.grouped name = true → (bm.endpoint name).composeFile = project.file →
    bm.ownProject name = project

/-- The endpoints of a compose file have the same profile. -/
def BootManager.Agrees (bm : BootManager) : Prop :=
  ∀ name, bm.grouped name = true → bm.Common (bm.ownProject name)

section Shutdown

variable {name : String} {names walked : List String}

theorem mem_of_grouped (h : bm.grouped name = true) : name ∈ bm.endpoints := by
  by_contra hmem
  rw [grouped, endpoint, GoMap.index, AList.lookup_eq_none.mpr hmem] at h
  cases h

/-- **Whatever the orders of the walks**, the first profile of a group is that of all its endpoints
if they agree. -/
theorem BootManager.Met.common (h : bm.Met project) (hagrees : bm.Agrees) : bm.Common project := by
  rcases project with ⟨file, profile⟩
  obtain ⟨names, walked, hnames, hwalked, rfl⟩ := h
  rintro name hgrouped rfl
  rw [index_groupByCompose] at hwalked
  have hmem : name ∈ walked := hwalked.mem_iff.mpr
    (mem_members.mpr ⟨hnames.mem_iff.mpr (mem_of_grouped hgrouped), hgrouped, rfl⟩)
  have hprofiles : (walked.map fun x => (bm.endpoint x).profile) =
      replicate walked.length (bm.endpoint name).profile := by
    refine map_eq_replicate_iff.mpr fun x hx => ?_
    obtain ⟨-, hx, hfile⟩ := mem_members.mp (hwalked.mem_iff.mp hx)
    exact congrArg ComposeProject.profile (hagrees name hgrouped x hx hfile)
  rw [ownProject, firstProfile, hprofiles, find?_replicate, if_neg (length_pos_of_mem hmem).ne']
  by_cases hprofile : (bm.endpoint name).profile = ""
  · simp [hprofile]
  · simp [hprofile]

theorem met_of_up (h : .up project ∈ (bm.bootAll.run env []).2.map (·.call)) :
    bm.Met project ∧ ∀ project', .up project' ∈ (bm.bootAll.run env []).2.map (·.call) →
      project'.file = project.file → project' = project := by
  have hwp : bm.bootAll.wp (fun _ _ => True) (RolledBack bm) [] := wp_bootAll_rolledBack
  obtain ⟨before, -, honce, hmet, rollback, htrace, hcalls⟩ :=
    hwp.of_run_answered env fun _ _ => trivial
  -- the rollback brings up nothing
  have hbefore : ∀ project', .up project' ∈ (bm.bootAll.run env []).2.map (·.call) →
      .up project' ∈ before.map (·.call) := by
    intro project' hup
    rw [htrace, map_append] at hup
    refine (mem_append.mp hup).resolve_left fun hup => ?_
    rw [← mem_reverse, ← map_reverse, hcalls, toUndo] at hup
    split_ifs at hup <;> simp at hup
  obtain ⟨e, he, hcall⟩ := mem_map.mp (hbefore project h)
  exact ⟨hmet e he project hcall, fun project' h' hfile => inj_on_of_nodup_map honce
    (mem_triedUp.mpr (hbefore project' h')) (mem_triedUp.mpr (hbefore project h)) hfile⟩

/-- **What a boot tries to bring up** are the projects of the endpoints. -/
theorem up_mem_boot (hagrees : bm.Agrees)
    (hlive : told (.cancelled .discovery) (bm.bootAll.run env []).2 = false) :
    .up project ∈ (bm.bootAll.run env []).2.map (·.call) ↔ bm.Brings project := by
  have htries : TriesAll bm (bm.bootAll.run env []).2 := (finished_of_run rfl).tries
  constructor
  · intro hup
    obtain ⟨⟨c, o⟩, he, rfl⟩ := mem_map.mp hup
    obtain ⟨horchestrator, -, name, hname⟩ :=
      (htries project.file).mp (tried_iff.mpr ⟨project, o, rfl, he⟩)
    obtain ⟨-, hgrouped, hfile⟩ := mem_members.mp hname
    exact ⟨horchestrator, name, hgrouped, (met_of_up hup).1.common hagrees name hgrouped hfile⟩
  · rintro ⟨horchestrator, name, hgrouped, rfl⟩
    obtain ⟨project, o, hfile, he⟩ := tried_iff.mp ((htries _).mpr ⟨horchestrator, hlive, name,
      mem_members.mpr ⟨mem_of_grouped hgrouped, hgrouped, rfl⟩⟩)
    have hup : .up project ∈ (bm.bootAll.run env []).2.map (·.call) := mem_map_of_mem he
    rwa [(met_of_up hup).1.common hagrees name hgrouped hfile.symm]

/-- **What a shutdown takes down** are the projects of the endpoints. -/
theorem wp_downGroups (hagrees : bm.Agrees) (first : Option String)
    (ht : .down project ∉ t.map (·.call)) :
    (bm.downGroups first).wp S
      (fun _ t' => .down project ∈ t'.map (·.call) ↔ bm.Brings project) t := by
  refine wp_rangeEndpoints fun names hnames => wp_seam fun files => ?_
  split_ifs with horchestrator
  · exact iff_of_false (by simpa using ht) fun h => by simp [h.1] at horchestrator
  refine (wp_foldlM (fun done _ t' => .down project ∈ t'.map (·.call) ↔ ∃ name,
    (bm.endpoint name).composeFile ∈ done ∧ bm.grouped name = true ∧ bm.ownProject name = project)
    (by simpa using ht) fun done file rest _ t hfiles h => wp_seam fun walked =>
      wp_seam fun r => ?_).mono fun _ t' h => h.trans ?_
  · have hcommon : bm.Common ⟨file, bm.firstProfile walked.1⟩ :=
      Met.common ⟨names, walked.1, hnames, walked.2, rfl⟩ hagrees
    obtain ⟨name, hname⟩ := mem_groupByCompose.mp
      (files.2.mem_iff.mp (hfiles ▸ mem_append_right done mem_cons_self))
    obtain ⟨-, hgrouped, hfile⟩ := mem_members.mp hname
    have hturn : project = ⟨file, bm.firstProfile walked.1⟩ ↔ ∃ name,
        (bm.endpoint name).composeFile = file ∧ bm.grouped name = true ∧
          bm.ownProject name = project := by
      constructor
      · rintro rfl
        exact ⟨name, hfile, hgrouped, hcommon name hgrouped hfile⟩
      · rintro ⟨name, hfile, hgrouped, rfl⟩
        exact hcommon name hgrouped hfile
    simp only [wp_pure, map_cons, mem_cons, mem_append, SeamCall.down.injEq,
      reduceCtorEq, not_mem_nil, h, hturn, false_or, or_and_right, exists_or, or_comm]
  · have hall : ∀ name, bm.grouped name = true → (bm.endpoint name).composeFile ∈ files.1 :=
      fun name hgrouped => files.2.mem_iff.mpr (mem_groupByCompose.mpr ⟨name,
        mem_members.mpr ⟨hnames.mem_iff.mpr (mem_of_grouped hgrouped), hgrouped, rfl⟩⟩)
    rw [Brings, and_iff_right (by simpa using horchestrator)]
    exact exists_congr fun name => and_iff_right_of_imp fun h => hall name h.1

end Shutdown

/-- **A shutdown mirrors the boot** – it takes down exactly the projects that the boot tried to
bring up, and the project of every endpoint of a group is among them – if and only if there is no
group, or there is an orchestrator, the boot was not cancelled before, and the endpoints of a
compose file agree on their profile. -/
theorem shutdown_mirrors_boot_iff (bm : BootManager) (env env' : Surroundings) :
    ((∀ project, .down project ∈ (bm.shutdown.run env' []).2.map (·.call) ↔
        .up project ∈ (bm.bootAll.run env []).2.map (·.call)) ∧
      ∀ name, bm.grouped name = true →
        .up (bm.ownProject name) ∈ (bm.bootAll.run env []).2.map (·.call)) ↔
    (∀ name, bm.grouped name = false) ∨ bm.orchestrator = true ∧
      told (.cancelled .discovery) (bm.bootAll.run env []).2 = false ∧ bm.Agrees := by
  have htries : TriesAll bm (bm.bootAll.run env []).2 := (finished_of_run rfl).tries
  have htried : ∀ project, .up project ∈ (bm.bootAll.run env []).2.map (·.call) →
      bm.orchestrator = true ∧ told (.cancelled .discovery) (bm.bootAll.run env []).2 = false ∧
        ∃ name, bm.grouped name = true := by
    intro project hup
    obtain ⟨⟨c, o⟩, he, rfl⟩ := mem_map.mp hup
    obtain ⟨horchestrator, hlive, name, hname⟩ :=
      (htries project.file).mp (tried_iff.mpr ⟨project, o, rfl, he⟩)
    exact ⟨horchestrator, hlive, name, (mem_members.mp hname).2.1⟩
  have hdown : bm.Agrees → ∀ project,
      .down project ∈ (bm.shutdown.run env' []).2.map (·.call) ↔ bm.Brings project := by
    intro hagrees project
    have hwp : bm.shutdown.wp (fun _ _ => True)
        (fun _ t => .down project ∈ t.map (·.call) ↔ bm.Brings project) [] := by
      unfold shutdown
      split_ifs
      · exact wp_seam fun r => wp_downGroups hagrees r (by simp)
      · exact wp_downGroups hagrees none not_mem_nil
    exact hwp.of_run_answered env' fun _ _ => trivial
  constructor
  · rintro ⟨-, hown⟩
    rcases forall_or_exists_not fun name => bm.grouped name = false with hnone | ⟨name, hname⟩
    · exact .inl hnone
    rw [Bool.not_eq_false] at hname
    obtain ⟨horchestrator, hlive, -⟩ := htried _ (hown name hname)
    -- one project is brought up for a file, and it is the own one of each endpoint
    exact .inr ⟨horchestrator, hlive, fun x hx y hy hfile =>
      (met_of_up (hown x hx)).2 _ (hown y hy) hfile⟩
  · rintro (hnone | ⟨horchestrator, hlive, hagrees⟩)
    · have hagrees : bm.Agrees := fun name hname => absurd hname (by simp [hnone name])
      refine ⟨fun project => (hdown hagrees project).trans (iff_of_false ?_ ?_), fun name hname =>
        absurd hname (by simp [hnone name])⟩
      · rintro ⟨-, name, hname, -⟩
        simp [hnone name] at hname
      · intro hup
        obtain ⟨-, -, name, hname⟩ := htried project hup
        simp [hnone name] at hname
    · exact ⟨fun project => (hdown hagrees project).trans (up_mem_boot hagrees hlive).symm,
        fun name hname => (up_mem_boot hagrees hlive).mpr ⟨horchestrator, name, hname, rfl⟩⟩

def pair (profile : String) : BootManager where
  endpoints :=
    GoMap.ofList [("web", { enabled := true, composeFile := "app.yml", profile := "prod" }),
    ("job", { enabled := true, composeFile := "app.yml", profile := profile })]
  orchestrator := true

/-- Collaborators with whom all goes well, and who walk the endpoints backwards at first. -/
def backwards : Surroundings
  | [], .range keys => ⟨keys.reverse, keys.reverse_perm⟩
  | t, c => answering [] [] t c

theorem shutdown_mirrors_boot_prod :
    .down ⟨"app.yml", "prod"⟩ ∈ ((pair "prod").shutdown.run backwards []).2.map (·.call) := by
  have hown : ∀ name, (pair "prod").grouped name = true →
      (pair "prod").ownProject name = ⟨"app.yml", "prod"⟩ := by
    intro name hgrouped
    have hname : name ∈ ["web", "job"] := mem_of_grouped hgrouped
    rcases mem_pair.mp hname with rfl | rfl <;> rfl
  have hagrees : (pair "prod").Agrees := fun name hname name' hname' _ =>
    (hown name' hname').trans (hown name hname).symm
  exact (((shutdown_mirrors_boot_iff (pair "prod") (answering [] []) backwards).mpr
    (.inr ⟨rfl, by decide +kernel, hagrees⟩)).1 _).mpr (by decide +kernel)

/-- **With two profiles in a compose file**, the shutdown takes down another project than the boot
has brought up, and one endpoint's own is not brought up. -/
theorem shutdown_other_profile :
    ((pair "dev").bootAll.run (answering [] []) []).1.err = none ∧
    .up ⟨"app.yml", "prod"⟩ ∈ ((pair "dev").bootAll.run (answering [] []) []).2.map (·.call) ∧
    .down ⟨"app.yml", "prod"⟩ ∉ ((pair "dev").shutdown.run backwards []).2.map (·.call) ∧
    .up ((pair "dev").ownProject "job") ∉
      ((pair "dev").bootAll.run (answering [] []) []).2.map (·.call) := by
  decide +kernel

end Containers.Boot
