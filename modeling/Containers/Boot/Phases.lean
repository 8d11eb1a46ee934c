import Containers.Boot.Tallies

/-!
# The phases of a boot

What each phase leaves behind, for every answer of the collaborators and every order of the walks:
the statuses that the answers call for, with the counters that go with them. The discovery and the
compose phase are loops over calls, with an invariant that speaks of the endpoints, or of the
compose files, that had their turn. The other phases make one call and then work through a list.

The last section puts them together: what is true of a boot that was not cancelled (`wp_bootAll`).
-/

namespace Containers.Boot

open Go Loops BootManager Prog Function List Booting

/-! ### Footprints -/

variable {bm : BootManager} {b : Booting} {t t' : History} {S : History → Event Outcome → Prop}
  {done names : List String} {file name : String} {status status' : String → Option Status}
  {distErr : Option String} {broken : String → Bool} {α : Type} {kinds : List Kind} {phase : Phase}
  {err : String} {lost : ℕ}

theorem only_seam {c : SeamCall} {k : Outcome c → Act α} (h : c.kind ∈ kinds)
    (hk : ∀ o, Only (Within kinds) (k o)) :
    Only (Within kinds) (seam c >>= k) :=
  (only_perform (A := Within kinds) h).bind hk

theorem only_rangeEndpoints {k : List String → Act α} (h : .range ∈ kinds)
    (hk : ∀ names, Only (Within kinds) (k names)) :
    Only (Within kinds) (bm.rangeEndpoints >>= k) :=
  (only_seam h fun _ => only_pure _).bind hk

theorem wp_rangeEndpoints {S : History → Event Outcome → Prop} {Q : α → History → Prop}
    {t : History} {k : List String → Act α}
    (h : ∀ order (horder : order.Perm bm.endpoints.keys),
      (k order).wp S Q (⟨.range bm.endpoints.keys, ⟨order, horder⟩⟩ :: t)) :
    (bm.rangeEndpoints >>= k).wp S Q t :=
  fun r _ => h r.1 r.2

theorem only_discoveryPhase : Only (Within [.range, .discover]) (bm.discoveryPhase b) := by
  refine only_rangeEndpoints (by simp) fun names => only_foldlM (fun b name => ?_) _ _
  unfold BootManager.discoverOne
  split_ifs
  · exact only_pure _
  · refine only_seam (by simp) ?_
    rintro (_ | _ | _) <;> exact only_pure _
  · exact only_pure _

theorem only_composePhase : Only (Within [.range, .up]) (bm.composePhase b) := by
  refine only_rangeEndpoints (by simp) fun names => only_seam (by simp) fun files => ?_
  split_ifs
  · exact only_pure _
  · refine only_foldlM (fun b file => ?_) _ _
    refine only_seam (by simp) fun walked => only_seam (by simp) ?_
    rintro (_ | _) <;> exact only_seam (by simp) fun _ => only_pure _

theorem only_distributePhase : Only (Within [.range, .distribute]) (bm.distributePhase b) := by
  unfold distributePhase
  split_ifs
  · exact only_pure _
  · refine only_rangeEndpoints (by simp) fun names => ?_
    dsimp only
    split_ifs
    · exact only_pure _
    · exact only_seam (by simp) fun _ => only_pure _

theorem only_remotePhase : Only (Within [.range]) (bm.remotePhase b) :=
  only_rangeEndpoints (by simp) fun _ => only_pure _

theorem only_healthCheckAll : Only (Within [.range, .check]) bm.healthCheckAll := by
  unfold healthCheckAll
  split_ifs
  · exact only_pure _
  · exact only_rangeEndpoints (by simp) fun _ => only_seam (by simp) fun _ => only_pure _

theorem only_healthPhase : Only (Within [.range, .check]) (bm.healthPhase b) := by
  unfold healthPhase
  split_ifs
  · exact only_pure _
  · exact only_healthCheckAll.bind fun _ => only_seam (by simp) fun _ => only_pure _

theorem only_rollback : Only (Within [.undo]) (bm.rollback b) := by
  have hdowns : ∀ projects : List ComposeProject, Only (Within [.undo])
      (projects.foldlM (fun _ project => do let _ ← seam (.down project)) ()) := fun projects =>
    only_foldlM (fun _ _ => only_seam (by simp) fun _ => only_pure _) _ _
  unfold rollback
  split_ifs
  · exact only_seam (by simp) fun _ => hdowns _
  · exact hdowns _
  · exact only_seam (by simp) fun _ => only_pure _
  · exact only_pure _

/-! ### Discovery -/

def nothingBroken (_ : String) : Bool := false

def BootManager.discoveredAmong (bm : BootManager) (done : List String) (t : History)
    (name : String) : Option Status :=
  if name ∈ done then bm.discovering t name else none

theorem discoveredAmong_append {name : String} (hname : name ∉ done)
    (htold : ∀ m ∈ done, told (.found m) t' = told (.found m) t) :
    bm.discoveredAmong (done ++ [name]) t' =
      update (bm.discoveredAmong done t) name (bm.discovering t' name) := by
  funext m
  by_cases hm : m = name
  · subst hm
    rw [update_self, discoveredAmong, if_pos (by simp)]
  · rw [update_of_ne hm, discoveredAmong, discoveredAmong]
    by_cases hdone : m ∈ done
    · rw [if_pos (by simp [hdone]), if_pos hdone, discovering, discovering,
        htold m hdone]
    · rw [if_neg (by simp [hdone, hm]), if_neg hdone]

/-- What holds of the boot while discovery goes on. -/
structure Discovered (bm : BootManager) (done : List String) (b : Booting) (t : History) :
    Prop where
  sound : Sound bm nothingBroken 0 (bm.discoveredAmong done t) b
  found : ∀ name, told (.found name) t = true → name ∈ done

theorem Discovered.discoverOne {name : String} (h : Discovered bm done b t) (hname : name ∉ done) :
    (bm.discoverOne b name).wp S (fun b' t' => Discovered bm (done ++ [name]) b' t') t := by
  have hnone : bm.discoveredAmong done t name = none := if_neg hname
  have hunseen : told (.found name) t = false := by
    rw [Bool.eq_false_iff]
    exact fun hfound => hname (h.found name hfound)
  have hfound : ∀ m, told (.found m) t = true → m ∈ done ++ [name] := fun m hm =>
    mem_append_left _ (h.found m hm)
  unfold BootManager.discoverOne
  by_cases henabled : (bm.endpoint name).enabled = true
  · rw [if_neg (by simp [henabled])]
    -- what is not found leaves the boot as it was
    have hmissed : ∀ t', (∀ m, told (.found m) t' = told (.found m) t) →
        Discovered bm (done ++ [name]) b t' := by
      intro t' htold
      refine ⟨?_, fun m hm => hfound m (htold m ▸ hm)⟩
      rw [discoveredAmong_append hname fun m _ => htold m, discovering,
        if_neg (by simp [henabled]), htold, hunseen, if_neg (by simp), ← hnone,
        update_eq_self]
      exact h.sound
    by_cases hdiscovery : ((bm.endpoint name).discoveryEnabled && bm.discoverer) = true
    · rw [if_pos hdiscovery]
      refine wp_seam ?_
      rintro (err | found)
      · exact hmissed _ fun m => rfl
      · rcases found with _ | _
        · exact hmissed _ fun m => rfl
        · have htold : ∀ m, told (.found m) (⟨.discover (bm.discoveryTarget name), .ok true⟩ :: t) =
              (decide (name = m) || told (.found m) t) := fun m => rfl
          refine ⟨?_, fun m hm => ?_⟩
          · have hdone : ∀ m ∈ done, told (.found m)
                (⟨.discover (bm.discoveryTarget name), .ok true⟩ :: t) = told (.found m) t := by
              intro m hm
              have hne : name ≠ m := fun heq => hname (heq ▸ hm)
              rw [htold, decide_eq_false hne, Bool.false_or]
            rw [discoveredAmong_append hname hdone, discovering,
              if_neg (by simp [henabled]), htold, if_pos (by simp)]
            exact h.sound.add (r := { status := .discovered }) hnone rfl (by simp [record])
          · rw [htold, Bool.or_eq_true, decide_eq_true_eq] at hm
            rcases hm with rfl | hm
            · simp
            · exact hfound m hm
    · rw [if_neg hdiscovery]
      exact hmissed t fun m => rfl
  · rw [if_pos (by simp [henabled])]
    refine ⟨?_, hfound⟩
    rw [discoveredAmong_append hname fun m _ => rfl, discovering,
      if_pos (by simp [henabled])]
    exact h.sound.add (r := { status := .skipped }) hnone rfl (by simp [record])

theorem nodup_of_perm_keys {order : List String} (h : order.Perm bm.endpoints.keys) : order.Nodup :=
  h.nodup_iff.mpr bm.endpoints.keys_nodup

/-- **After discovery.** -/
theorem wp_discoveryPhase :
    (bm.discoveryPhase {}).wp S
      (fun b' t' => Sound bm nothingBroken 0 (bm.among (bm.discovering t')) b') [] := by
  refine wp_rangeEndpoints fun order horder => ?_
  have hnodup := nodup_of_perm_keys horder
  refine (wp_foldlM (I := Discovered bm) ?_ ?_).mono fun b' t' h => ?_
  · refine ⟨⟨tallied_init, ?_, ?_⟩, ?_⟩
    · exact le_refl _
    · simp [nothingBroken, status]
    · intro name hname
      cases hname
  · rintro done name rest b t rfl h
    refine h.discoverOne fun hname => ?_
    exact (nodup_append.mp hnodup).2.2 name hname name mem_cons_self rfl
  · have hamong : bm.discoveredAmong order t' = bm.among (bm.discovering t') := by
      funext name
      rw [discoveredAmong, among]
      simp only [horder.mem_iff, AList.mem_keys]
    exact hamong ▸ h.sound

/-! ### Compose groups -/

def BootManager.members (bm : BootManager) (names : List String) (file : String) : List String :=
  names.filter fun name => bm.grouped name && decide ((bm.endpoint name).composeFile = file)

theorem mem_members : name ∈ bm.members names file ↔
    name ∈ names ∧ bm.grouped name = true ∧ (bm.endpoint name).composeFile = file := by
  simp [members]

theorem groupByCompose_eq (bm : BootManager) (names : List String) :
    bm.groupByCompose names =
      (names.filter bm.grouped).foldl (fun groups name =>
        groups.insert (bm.endpoint name).composeFile
          (groups.index [] (bm.endpoint name).composeFile ++ [name])) ∅ := by
  rw [groupByCompose, foldl_filter]
  congr 1
  funext groups name
  rcases bm.grouped name <;> rfl

theorem index_groupByCompose : (bm.groupByCompose names).index [] file = bm.members names file := by
  rw [groupByCompose_eq, GoMap.index_foldl_append (fun name => (bm.endpoint name).composeFile)
    (fun name => name), filter_filter, map_id', members]
  simp only [Bool.and_comm]
  rfl

theorem mem_groupByCompose :
    file ∈ bm.groupByCompose names ↔ ∃ name, name ∈ bm.members names file := by
  rw [groupByCompose_eq, GoMap.mem_foldl_append (fun name => (bm.endpoint name).composeFile)
    (fun name => name)]
  simp [mem_members, and_assoc]

theorem among_of_loop
    (step : String → Option Status → Option Status) (hsub : ∀ n ∈ names, n ∈ bm.endpoints)
    (h : ∀ n ∈ bm.endpoints, status' n = if n ∈ names then step n (status n) else status n) :
    bm.among status' = fun n => if n ∈ names then step n (bm.among status n)
      else bm.among status n := by
  funext n
  by_cases hn : n ∈ bm.endpoints
  · simp [among, hn, h]
  · simp [among, hn, mt (hsub n) hn]

theorem Sound.loop
    {op : Booting → String → Booting} (step : String → Option Status → Option Status)
    (h : Sound bm broken lost (bm.among status) b) (hnodup : names.Nodup)
    (hop : ∀ known b, ∀ n ∈ names, Sound bm broken lost known b →
      Sound bm broken lost (update known n (step n (known n))) (op b n))
    (hsub : ∀ n ∈ names, n ∈ bm.endpoints)
    (hstatus : ∀ n ∈ bm.endpoints, status' n = if n ∈ names then step n (status n) else status n) :
    Sound bm broken lost (bm.among status') (names.foldl op b) := by
  rw [among_of_loop step hsub hstatus]
  exact foldl_pointwise (Sound bm broken lost) op step hop hnodup h

/-- What holds of the boot while the groups are brought up. -/
structure Composed (bm : BootManager) (done : List String) (b : Booting) (t : History) :
    Prop where
  sound : Sound bm (bm.groupFailed t) (bm.lost t) (bm.among (bm.composing t)) b
  tried : ∀ file, (told (.broke file) t || told (.raised file) t) = true ↔ file ∈ done

theorem composing_of_untried (hgrouped : bm.grouped name = true)
    (hbroke : told (.broke (bm.endpoint name).composeFile) t = false)
    (hraised : told (.raised (bm.endpoint name).composeFile) t = false) :
    bm.composing t name = if told (.found name) t then some .discovered else none := by
  have henabled : (bm.endpoint name).enabled = true := by
    rw [grouped, Bool.and_eq_true] at hgrouped
    exact hgrouped.2
  rw [composing, groupFailed, groupRaised, hbroke, hraised, if_neg (by simp), if_neg (by simp),
    Option.or_none, discovering, if_neg (by simp [henabled])]

variable {x profile : String} {o : Option String} {g g' : List String}
  {w : Outcome (.range g)} {w' : Outcome (.range g')}

theorem told_turn (f : Fact) :
    told f (⟨.range g, w⟩ :: ⟨.up ⟨x, profile⟩, o⟩ :: ⟨.range g', w'⟩ :: t) =
      (f.toldBy (.up ⟨x, profile⟩) o || told f t) := by
  rcases f <;> rfl

theorem composing_congr (hfound : told (.found name) t' = told (.found name) t)
    (hfailed : bm.groupFailed t' name = bm.groupFailed t name)
    (hraised : bm.groupRaised t' name = bm.groupRaised t name) :
    bm.composing t' name = bm.composing t name := by
  rw [composing, composing, discovering,
    discovering, hfound, hfailed, hraised]

section Turn

variable (h : Composed bm done b t)
  (hx : x ∉ done) (hg : g.Perm (bm.members bm.endpoints.keys x))
include h hx hg

omit h hx in
theorem mem_group :
    name ∈ g ↔ name ∈ bm.endpoints ∧ bm.grouped name = true ∧
    (bm.endpoint name).composeFile = x := by
  rw [hg.mem_iff, mem_members, AList.mem_keys]

omit h hx in
theorem other_group (hname : name ∈ bm.endpoints) (hother : name ∉ g) (told : Bool) :
    (bm.grouped name && (decide (x = (bm.endpoint name).composeFile) || told)) =
      (bm.grouped name && told) := by
  rcases hgrouped : bm.grouped name
  · rfl
  · have hne : x ≠ (bm.endpoint name).composeFile := fun hfile =>
      hother ((mem_group hg).mpr ⟨hname, hgrouped, hfile.symm⟩)
    simp [hne]

omit h hx in
theorem nodup_group : g.Nodup := by
  rw [hg.nodup_iff]
  exact bm.endpoints.keys_nodup.filter _

omit hg in
theorem Composed.untried : told (.broke x) t = false ∧ told (.raised x) t = false := by
  rw [← Bool.or_eq_false_iff, Bool.eq_false_iff]
  exact fun htold => hx ((h.tried x).mp htold)

theorem Composed.known_of_mem (hname : name ∈ g) :
    bm.among (bm.composing t) name = if told (.found name) t then some .discovered else none := by
  obtain ⟨hmem, hgrouped, rfl⟩ := (mem_group hg).mp hname
  obtain ⟨hbroke, hraised⟩ := h.untried hx
  rw [among, if_pos hmem, composing_of_untried hgrouped hbroke hraised]

/-- **The Up of a group fails**: all its endpoints have failed. -/
theorem Composed.broke (hne : g ≠ [])
    (htold : ∀ f : Fact, told f t' = (f.toldBy (.up ⟨x, profile⟩) (some err) || told f t)) :
    Composed bm (done ++ [x]) (g.foldl (failGroup err) b) t' := by
  have hfound : ∀ n, told (.found n) t' = told (.found n) t := fun n => htold (.found n)
  have hraised : ∀ file, told (.raised file) t' = told (.raised file) t := fun file =>
    htold (.raised file)
  have hbroke : ∀ file, told (.broke file) t' = (decide (x = file) || told (.broke file) t) :=
    fun file => htold (.broke file)
  have huntried := h.untried hx
  have hfailed : ∀ n ∈ bm.endpoints,
      bm.groupFailed t' n = (bm.groupFailed t n || decide (n ∈ g)) := by
    intro n hn
    rw [groupFailed, groupFailed, hbroke]
    by_cases hng : n ∈ g
    · obtain ⟨-, hgrouped, hfile⟩ := (mem_group hg).mp hng
      simp [hng, hgrouped, hfile]
    · simp [other_group hg hn hng, hng]
  have hunfailed : ∀ n ∈ g, bm.groupFailed t n = false := by
    intro n hn
    rw [groupFailed, ((mem_group hg).mp hn).2.2, huntried.1, Bool.and_false]
  have hstatus : bm.among (bm.composing t') = fun n => if n ∈ g then some .failed
      else bm.among (bm.composing t) n := by
    refine among_of_loop (fun _ _ => some .failed)
      (fun n hn => ((mem_group hg).mp hn).1) fun n hn => ?_
    by_cases hng : n ∈ g
    · rw [if_pos hng, composing, hfailed n hn, if_pos (by simp [hng])]
    · rw [if_neg hng]
      refine composing_congr (hfound n) (by simp [hfailed n hn, hng]) ?_
      rw [groupRaised, groupRaised, hraised]
  have hlost : bm.lost t' =
      bm.lost t + g.countP (bm.among (bm.composing t) · = some .discovered) := by
    have hcount : g.countP (bm.among (bm.composing t) · = some .discovered) =
        bm.endpoints.keys.countP (fun n => told (.found n) t && decide (n ∈ g)) := by
      rw [countP_congr (q := fun n => told (.found n) t && decide (n ∈ g)) fun n hn => ?_]
      · rw [hg.countP_eq, members, countP_filter]
        refine countP_congr fun n hn => ?_
        have hmem : n ∈ g ↔ _ := mem_group hg
        simp [hmem]
      · rw [h.known_of_mem hx hg hn]
        simp [hn]
    rw [lost, lost, hcount, ← countP_or_of_disjoint fun n _ hn => ?_]
    · refine countP_congr fun n hn => ?_
      rw [hfound, hfailed n (AList.mem_keys.mpr hn), Bool.and_or_distrib_left]
    · rw [Bool.and_eq_true] at hn
      by_contra hboth
      rw [Bool.not_eq_false, Bool.and_eq_true, decide_eq_true_eq] at hboth
      rw [hunfailed n hboth.2] at hn
      exact Bool.false_ne_true hn.2
  obtain ⟨n, hn⟩ := exists_mem_of_ne_nil g hne
  have hlength := length_pos_of_mem hn
  have hnonneg := h.sound.blamed.nonneg
  refine ⟨⟨?_, ?_, ?_⟩, fun file => ?_⟩
  · rw [hstatus, hlost]
    refine h.sound.tallied.foldl_failGroup (nodup_group hg) fun m hm => ?_
    rw [h.known_of_mem hx hg hm]
    rcases told (.found m) t <;> simp
  · rw [failed_foldl_failGroup]
    omega
  · rw [failed_foldl_failGroup]
    refine iff_of_true (by omega) ⟨n, .inl ?_⟩
    rw [hfailed n ((mem_group hg).mp hn).1]
    simp [hn]
  · rw [hbroke, hraised, Bool.or_assoc, Bool.or_eq_true, decide_eq_true_eq, h.tried,
      mem_append, mem_singleton, eq_comm (a := x), or_comm]

/-- **The Up of a group succeeds**: its endpoints without a result have come up. -/
theorem Composed.raised {project : ComposeProject}
    (htold : ∀ f : Fact, told f t' = (f.toldBy (.up ⟨x, profile⟩) none || told f t)) :
    Composed bm (done ++ [x])
      (g.foldl bm.startGroup { b with booted := b.booted ++ [project] }) t' := by
  have hfound : ∀ n, told (.found n) t' = told (.found n) t := fun n => htold (.found n)
  have hbroke : ∀ file, told (.broke file) t' = told (.broke file) t := fun file =>
    htold (.broke file)
  have hraised : ∀ file, told (.raised file) t' = (decide (x = file) || told (.raised file) t) :=
    fun file => htold (.raised file)
  have huntried := h.untried hx
  have hfailed : bm.groupFailed t' = bm.groupFailed t := by
    funext n
    rw [groupFailed, groupFailed, hbroke]
  have hlost : bm.lost t' = bm.lost t := by
    simp only [lost, hfailed, hfound]
  refine ⟨?_, fun file => ?_⟩
  · rw [hfailed, hlost]
    refine Sound.loop (fun n known =>
      known.or (some (if (bm.endpoint n).remote then .remote else .started))) h.sound.remember
      (nodup_group hg) (fun known b n _ hknown => hknown.startGroup)
      (fun n hn => ((mem_group hg).mp hn).1) fun n hn => ?_
    by_cases hng : n ∈ g
    · obtain ⟨-, hgrouped, hfile⟩ := (mem_group hg).mp hng
      rw [if_pos hng, composing, composing, discovering, discovering, groupRaised, groupRaised,
        hraised, hfailed, hfound, groupFailed, hfile, huntried.1, huntried.2, hgrouped]
      simp
    · rw [if_neg hng]
      refine composing_congr (hfound n) (congrFun hfailed n) ?_
      rw [groupRaised, hraised]
      exact other_group hg hn hng _
  · rw [hbroke, hraised, Bool.or_left_comm, Bool.or_eq_true, decide_eq_true_eq, h.tried,
      mem_append, mem_singleton, eq_comm (a := x), or_comm]

end Turn

theorem wp_composeGroup (h : Composed bm done b t) (hnames : names.Perm bm.endpoints.keys)
    (hx : x ∉ done) (hfile : x ∈ bm.groupByCompose names) :
    (bm.composeGroup (bm.groupByCompose names) b x).wp S
      (fun b' t' => Composed bm (done ++ [x]) b' t') t := by
  have hmembers : (bm.members names x).Perm (bm.members bm.endpoints.keys x) := hnames.filter _
  obtain ⟨n, hn⟩ := mem_groupByCompose.mp hfile
  rw [composeGroup, index_groupByCompose]
  refine wp_seam fun walked => wp_seam ?_
  rintro (_ | err) <;> refine wp_seam ?_ <;> rintro ⟨g, hg⟩
  · exact h.raised hx (hg.trans hmembers) told_turn
  · exact h.broke hx (hg.trans hmembers) (ne_nil_of_mem (hg.mem_iff.mpr hn)) told_turn

theorem composed_nil (h : Sound bm nothingBroken 0 (bm.among (bm.discovering t)) b)
    (hquiet : Unchanged [.up] [] t) : Composed bm [] b t := by
  have hfailed : bm.groupFailed t = nothingBroken := by
    rw [hquiet.groupFailed]
    funext name
    exact Bool.and_false _
  have hraised : bm.groupRaised t = nothingBroken := by
    rw [hquiet.groupRaised]
    funext name
    exact Bool.and_false _
  have hlost : bm.lost t = 0 := by
    rw [lost, hfailed]
    simp [nothingBroken]
  have hcomposing : bm.composing t = bm.discovering t := by
    funext name
    rw [composing, hfailed, hraised]
    simp [nothingBroken]
  refine ⟨?_, fun file => ?_⟩
  · rw [hfailed, hlost, hcomposing]
    exact h
  · rw [hquiet (.broke file) (by simp), hquiet (.raised file) (by simp)]
    simp

/-- **After the compose groups**: each compose file had its Up, unless there is no orchestrator. -/
theorem wp_composePhase (h : Sound bm nothingBroken 0 (bm.among (bm.discovering t)) b)
    (hquiet : Unchanged [.up] [] t) :
    (bm.composePhase b).wp S (fun b' t' => ∃ files, Composed bm files b' t' ∧
      ∀ file, file ∈ files ↔
        bm.orchestrator = true ∧ ∃ name, name ∈ bm.members bm.endpoints.keys file) t := by
  refine wp_rangeEndpoints fun names hnames => wp_seam ?_
  rintro ⟨files, hfiles⟩
  have hinit : Composed bm [] b (⟨.range (bm.groupByCompose names).keys, ⟨files, hfiles⟩⟩ ::
      ⟨.range bm.endpoints.keys, ⟨names, hnames⟩⟩ :: t) := by
    refine composed_nil ?_ ((hquiet.cons (by simp)).cons (by simp))
    rwa [(((Unchanged.refl [.discover] t).cons (by simp)).cons
      (by simp)).discovering]
  by_cases horchestrator : bm.orchestrator = true
  · rw [if_neg (by simp [horchestrator])]
    refine (wp_foldlM (I := Composed bm) hinit ?_).mono fun b' t' h' => ⟨files, h', ?_⟩
    · rintro done x rest b t rfl hdone
      have hnodup := hfiles.nodup_iff.mpr (bm.groupByCompose names).keys_nodup
      refine wp_composeGroup hdone hnames (fun hx => ?_) ?_
      · exact (nodup_append.mp hnodup).2.2 x hx x mem_cons_self rfl
      · rw [AList.mem_keys, ← hfiles.mem_iff]
        simp
    · intro file
      rw [hfiles.mem_iff, ← AList.mem_keys, mem_groupByCompose]
      simp only [horchestrator, true_and, mem_members, hnames.mem_iff]
  · rw [if_pos (by simp [horchestrator])]
    refine ⟨[], hinit, fun file => ?_⟩
    simp [horchestrator]

/-! ### Distribution -/

/-- What holds of the boot between the phases that follow the compose groups. -/
def Settled (bm : BootManager) (status : String → Option Status) (b : Booting) (t : History) :
    Prop :=
  Sound bm (bm.groupFailed t) (bm.lost t) (bm.among status) b

theorem Settled.of_unchanged (h : Settled bm status b t) (ht : Unchanged [.discover, .up] t t') :
    Settled bm status b t' := by
  rw [Settled, ht.lost, (ht.mono (by simp)).groupFailed]
  exact h

theorem Sound.foldl_attributeDeployed
    {known : String → Option Status} {names : List String} {deployed total : ℕ}
    (h : Sound bm broken lost known b) (hnodup : names.Nodup) :
    Sound bm broken lost
      (fun name => (known name).or
        (if name ∈ names.take deployed then some .distributed
          else if name ∈ names.drop deployed then some .failed else none))
      (names.zipIdx.foldl (bm.attributeDeployed distErr deployed total) b) := by
  have hsplit : bm.attributeDeployed distErr deployed total = fun b x =>
      if x.2 < deployed then bm.attributeDeployed distErr deployed total b (x.1, 0)
      else bm.attributeDeployed distErr deployed total b (x.1, deployed) := by
    funext b x
    unfold BootManager.attributeDeployed
    by_cases hx : x.2 < deployed
    · simp [hx, Nat.zero_lt_of_lt hx]
    · simp [hx]
  have hfirst := foldl_pointwise (Sound bm broken lost)
    (fun b name => bm.attributeDeployed distErr deployed total b (name, 0))
    (fun _ known => known.or (some (if 0 < deployed then .distributed else .failed)))
    (fun known b n _ hknown => hknown.attributeDeployed)
    (hnodup.sublist (take_sublist deployed names)) h
  have hsecond := foldl_pointwise (Sound bm broken lost)
    (fun b name => bm.attributeDeployed distErr deployed total b (name, deployed))
    (fun _ known => known.or (some (if deployed < deployed then .distributed else .failed)))
    (fun known b n _ hknown => hknown.attributeDeployed)
    (hnodup.sublist (drop_sublist deployed names)) hfirst
  rw [hsplit, foldl_zipIdx_lt
    (fun b name => bm.attributeDeployed distErr deployed total b (name, 0))
    (fun b name => bm.attributeDeployed distErr deployed total b (name, deployed)), Nat.sub_zero]
  convert hsecond using 1
  funext name
  by_cases htake : name ∈ names.take deployed
  · have hdrop : name ∉ names.drop deployed := fun hdrop =>
      disjoint_take_drop hnodup (le_refl deployed) htake hdrop
    have hpos : 0 < deployed := by
      rcases deployed with _ | deployed
      · simp at htake
      · exact Nat.succ_pos deployed
    simp [htake, hpos]
  · by_cases hdrop : name ∈ names.drop deployed
    · simp [htake, hdrop]
    · simp [htake, hdrop]

/-- What is in the shortfall had no result, and was not deployed. -/
def Shortfall (bm : BootManager) (t : History) : Prop :=
  ∀ name, told (.missed name) t = true →
    name ∈ bm.endpoints ∧ bm.composing t name = none ∧ told (.deployed name) t = false

theorem Shortfall.of_unchanged (h : Shortfall bm t)
    (ht : Unchanged [.discover, .up, .distribute] t t') : Shortfall bm t' := by
  intro name hname
  rw [ht (.missed name) (by simp)] at hname
  rw [(ht.mono (by simp)).composing, ht (.deployed name) (by simp)]
  exact h name hname

/-- **The distributor answers**: its first endpoints are deployed, the others are the shortfall. -/
theorem Settled.distribute {names : List String} {count : ℤ}
    (h : Settled bm (bm.composing t) b t) (hquiet : Unchanged [.distribute] [] t)
    (hnodup : names.Nodup)
    (hsub : ∀ name ∈ names, name ∈ bm.endpoints ∧ bm.composing t name = none) :
    Settled bm (bm.distributing (⟨.distribute names, (count, distErr)⟩ :: t))
        (names.zipIdx.foldl (bm.attributeDeployed distErr (min count.toNat names.length)
          names.length) { b with distributed := true })
          (⟨.distribute names, (count, distErr)⟩ :: t) ∧
      Shortfall bm (⟨.distribute names, (count, distErr)⟩ :: t) := by
  have hdeployed : ∀ name, told (.deployed name) (⟨.distribute names, (count, distErr)⟩ :: t) =
      decide (name ∈ names.take count.toNat) := fun name => by
    rw [told_cons, hquiet (.deployed name) (by simp), told_nil, Bool.or_false, Fact.toldBy]
  have hmissed : ∀ name, told (.missed name) (⟨.distribute names, (count, distErr)⟩ :: t) =
      decide (name ∈ names.drop count.toNat) := fun name => by
    rw [told_cons, hquiet (.missed name) (by simp), told_nil, Bool.or_false, Fact.toldBy]
  have hunchanged : Unchanged [.discover, .up] t (⟨.distribute names, (count, distErr)⟩ :: t) :=
    (Unchanged.refl _ t).cons (by simp)
  constructor
  · refine Settled.of_unchanged ?_ hunchanged
    rw [Settled]
    convert h.remember.foldl_attributeDeployed hnodup using 1
    funext name
    rw [among, among, ← take_eq_take_min, ← drop_eq_drop_min]
    by_cases hname : name ∈ bm.endpoints
    · rw [if_pos hname, if_pos hname, distributing, hunchanged.composing, hdeployed, hmissed]
      simp only [decide_eq_true_eq]
    · rw [if_neg hname, if_neg hname, Option.none_or,
        if_neg fun hmem => hname (hsub name (mem_of_mem_take hmem)).1,
        if_neg fun hmem => hname (hsub name (mem_of_mem_drop hmem)).1]
  · intro name hname
    rw [hmissed, decide_eq_true_eq] at hname
    rw [hdeployed, decide_eq_false_iff_not]
    have hlast := hsub name (mem_of_mem_drop hname)
    exact ⟨hlast.1, hlast.2, fun htake => disjoint_take_drop hnodup (le_refl _) htake hname⟩

/-- **After the distribution.** -/
theorem wp_distributePhase (h : Settled bm (bm.composing t) b t)
    (hquiet : Unchanged [.distribute] [] t) :
    (bm.distributePhase b).wp S
      (fun b' t' => Settled bm (bm.distributing t') b' t' ∧ Shortfall bm t') t := by
  -- as long as the distributor is not called, nothing has changed
  have hsame : Settled bm (bm.distributing t) b t ∧ Shortfall bm t := by
    have hdistributing : bm.distributing t = bm.composing t := by
      funext name
      rw [distributing, hquiet (.deployed name) (by simp), hquiet (.missed name) (by simp)]
      simp
    rw [hdistributing]
    refine ⟨h, fun name hname => ?_⟩
    rw [hquiet (.missed name) (by simp)] at hname
    cases hname
  rw [distributePhase]
  split_ifs
  · exact hsame
  · refine wp_rangeEndpoints fun order horder => ?_
    dsimp only
    split_ifs
    · exact hsame
    · refine wp_seam fun r => Settled.distribute (by exact h) (hquiet.cons (by simp))
        ((nodup_of_perm_keys horder).filter _) fun name hname => ?_
      rw [mem_filter, horder.mem_iff, toDistribute, Bool.and_eq_true,
        decide_eq_true_eq, h.tallied.mem_iff, not_not, ← AList.mem_keys] at hname
      obtain ⟨hmem, hnone, -⟩ := hname
      rw [among, if_pos hmem] at hnone
      exact ⟨hmem, hnone⟩

/-- **With the remote endpoints that are left.** -/
theorem wp_remotePhase (h : Settled bm (bm.distributing t) b t) :
    (bm.remotePhase b).wp S (fun b' t' => Settled bm (bm.leaving t') b' t') t := by
  refine wp_rangeEndpoints fun order horder => ?_
  have hmem : ∀ name, name ∈ order ↔ name ∈ bm.endpoints := fun name => by
    rw [horder.mem_iff, AList.mem_keys]
  refine Settled.of_unchanged (t := t) ?_ ((Unchanged.refl _ t).cons (by simp))
  exact Sound.loop (fun name known =>
    known.or (if (bm.endpoint name).remote then some .remote else none)) h
    (nodup_of_perm_keys horder) (fun known b n _ hknown => hknown.leaveRemote)
    (fun name => (hmem name).mp) fun name hname => (if_pos ((hmem name).mpr hname)).symm

/-! ### Health -/

theorem mem_healthErrors (checked : List (String × HealthResult)) (errors : GoMap String String) :
    name ∈ checked.foldl (fun errors x =>
        if x.2.healthy then errors else errors.insert x.1 ("health check failed: " ++ x.2.error))
      errors ↔
      name ∈ errors ∨ (checked.any fun x => x.1 = name && !x.2.healthy) = true := by
  induction checked generalizing errors with
  | nil => simp
  | cons x checked ih =>
    rw [foldl_cons, ih]
    by_cases hx : x.2.healthy = true
    · simp [hx]
    · simp [hx, eq_comm (a := name), or_left_comm, or_assoc]

/-- The errors of the health checks are those of the endpoints that are not healthy, and only
enabled ones are checked. -/
theorem wp_healthCheckAll (hchecker : bm.healthChecker = true) (hquiet : Unchanged [.check] [] t) :
    bm.healthCheckAll.wp S (fun errors t' => ∀ name,
      (name ∈ errors ↔ told (.unhealthy name) t' = true) ∧
      (name ∈ errors → name ∈ bm.endpoints ∧ (bm.endpoint name).enabled = true)) t := by
  rw [healthCheckAll, if_neg (by simp [hchecker])]
  refine wp_rangeEndpoints fun order horder => wp_seam ?_
  rintro ⟨results, hlength⟩
  intro name
  have htold : told (.unhealthy name) (⟨.checkAll ((order.filter fun name =>
        (bm.endpoint name).enabled).map bm.healthTarget), ⟨results, hlength⟩⟩ ::
      ⟨.range bm.endpoints.keys, ⟨order, horder⟩⟩ :: t) =
        (((order.filter fun name => (bm.endpoint name).enabled).zip results).any fun x =>
          x.1 = name && !x.2.healthy) := by
    have hquiet' : Unchanged [.check] [] (⟨.range bm.endpoints.keys, ⟨order, horder⟩⟩ :: t) :=
      hquiet.cons (by simp)
    rw [told_cons, hquiet' (.unhealthy name) (by simp), Fact.toldBy, zip_map_left,
      any_map, told_nil, Bool.or_false]
    rfl
  constructor
  · rw [mem_healthErrors, htold]
    simp
  · rw [mem_healthErrors]
    rintro (hmem | hmem)
    · cases hmem
    · obtain ⟨⟨m, r⟩, hx, hunhealthy⟩ := any_eq_true.mp hmem
      simp only [Bool.and_eq_true, decide_eq_true_eq] at hunhealthy
      obtain ⟨rfl, -⟩ := hunhealthy
      obtain ⟨horder', henabled⟩ := mem_filter.mp (of_mem_zip hx).1
      exact ⟨AList.mem_keys.mpr (horder.mem_iff.mp horder'), henabled⟩

theorem leaving_ne_skipped (henabled : (bm.endpoint name).enabled = true) :
    bm.leaving t name ≠ some .skipped := by
  unfold leaving distributing composing discovering
  split_ifs <;> simp_all

/-- **After the health checks.** -/
theorem wp_healthPhase (h : Settled bm (bm.leaving t) b t) (hquiet : Unchanged [.check] [] t) :
    (bm.healthPhase b).wp S (fun b' t' => Settled bm (bm.ending t') b' t') t := by
  rw [healthPhase]
  by_cases hchecker : bm.healthChecker = true
  · rw [if_neg (by simp [hchecker])]
    refine wp_framed only_healthCheckAll [.discover, .up, .distribute] (by decide)
      (wp_healthCheckAll hchecker hquiet) fun errors t' herrors hunchanged => wp_seam ?_
    rintro ⟨names, hnames⟩
    have hunchanged' := hunchanged.cons (c := .range errors.keys) (o := ⟨names, hnames⟩)
      (by simp)
    have hmem : ∀ name, name ∈ names ↔ name ∈ errors := fun name => by
      rw [hnames.mem_iff, AList.mem_keys]
    refine Settled.of_unchanged ?_ (hunchanged'.mono (by simp))
    -- only enabled endpoints are checked, so none of them was skipped
    have hfold := foldl_pointwise
      (fun known b => Sound bm (bm.groupFailed t) (bm.lost t) known b ∧
        ∀ name ∈ names, known name ≠ some .skipped) (bm.failHealth errors)
      (fun name known => if (bm.endpoint name).required then some .failed else known)
      (fun known b name hname hknown => ⟨hknown.1.failHealth (hknown.2 name hname), ?_⟩)
      (hnames.nodup_iff.mpr errors.keys_nodup) ⟨h, fun name hname => ?_⟩
    · rw [Settled, among_of_loop
        (fun name known => if (bm.endpoint name).required then some .failed else known)
        (fun name hname => ((herrors name).2 ((hmem name).mp hname)).1) fun name _ => ?_]
      · exact hfold.1
      have htold := (herrors name).1
      rw [ending, hunchanged'.leaving, told_cons_of_kind_ne (by simp)]
      simp only [hmem]
      by_cases herror : name ∈ errors
      · rw [if_pos herror, htold.mp herror, Bool.and_true]
      · rw [Bool.eq_false_iff.mpr fun hunhealthy => herror (htold.mpr hunhealthy), if_neg herror,
          Bool.and_false]
        rfl
    · intro m hm
      have hskipped := hknown.2 m hm
      rcases eq_or_ne m name with rfl | hmn
      · rw [update_self]
        split_ifs
        · simp
        · exact hskipped
      · rwa [update_of_ne hmn]
    · obtain ⟨hendpoint, henabled⟩ := (herrors name).2 ((hmem name).mp hname)
      rw [among, if_pos hendpoint]
      exact leaving_ne_skipped henabled
  · rw [if_pos (by simp [hchecker])]
    have hending : bm.ending t = bm.leaving t := by
      funext name
      rw [ending, hquiet (.unhealthy name) (by simp)]
      simp
    rwa [wp_pure, hending]

/-! ### The whole boot -/

def Cancelled (t : History) : Prop := ∃ phase, told (.cancelled phase) t = true

/-- **The Ups of a boot**: one for each compose file of an enabled endpoint, if there is an
orchestrator and the boot was not cancelled before. -/
def TriesAll (bm : BootManager) (t : History) : Prop :=
  ∀ file, (told (.broke file) t || told (.raised file) t) = true ↔
    bm.orchestrator = true ∧ told (.cancelled .discovery) t = false ∧
      ∃ name, name ∈ bm.members bm.endpoints.keys file

/-- **What a boot returns**: it was cancelled and says so, or it reports the statuses that it was
told, with its counters, and an error if some endpoint is to blame. -/
structure Finished (bm : BootManager) (r : Report) (t : History) : Prop where
  tries : TriesAll bm t
  report : (Cancelled t ∧ r.err ≠ none) ∨
    (¬Cancelled t ∧ Shortfall bm t ∧ ∃ b, Settled bm (bm.ending t) b t ∧
      r.summary = summaryOf b b.results ∧ (r.err ≠ none ↔ 0 < b.failed))

theorem TriesAll.of_unchanged (h : TriesAll bm t) (ht : Unchanged [.up] t t')
    (hcancelled : told (.cancelled .discovery) t' = told (.cancelled .discovery) t) :
    TriesAll bm t' := by
  intro file
  rw [ht (.broke file) (by simp), ht (.raised file) (by simp), hcancelled]
  exact h file

theorem Cancelled.of_unchanged (h : Cancelled t) (ht : Unchanged [.context] t t') :
    Cancelled t' := by
  obtain ⟨phase, hphase⟩ := h
  exact ⟨phase, by rwa [ht (.cancelled phase) (by simp)]⟩

theorem not_cancelled (h : Unchanged [.context] [] t) : ¬Cancelled t := by
  rintro ⟨phase, hphase⟩
  rw [h _ (by simp)] at hphase
  cases hphase

theorem wp_cancelled
    (htries : TriesAll bm (⟨.ctxErr phase, (some err : Option String)⟩ :: t)) :
    (bm.cancelled b err).wp S (fun r t' => Finished bm r t')
      (⟨.ctxErr phase, (some err : Option String)⟩ :: t) := by
  refine (wp_unchanged only_rollback [.up, .context] (by decide) _).bind fun _ t' ht' => ?_
  refine ⟨htries.of_unchanged (ht'.mono (by simp)) (ht' _ (by simp)), .inl ⟨?_, nofun⟩⟩
  refine Cancelled.of_unchanged ⟨phase, ?_⟩ (ht'.mono (by simp))
  rw [told_cons]
  simp [Fact.toldBy]

theorem wp_conclude (hquiet : Unchanged [.context] [] t) (htries : TriesAll bm t)
    (hshort : Shortfall bm t) (h : Settled bm (bm.ending t) b t) :
    (bm.conclude b).wp S (fun r t' => Finished bm r t') t := by
  rw [conclude]
  by_cases hfailed : (summaryOf b b.results).hasFailures = true
  · have hpos : 0 < b.failed := of_decide_eq_true hfailed
    rw [if_pos hfailed]
    refine (wp_unchanged only_rollback [.discover, .up, .distribute, .check, .context] (by decide)
      t).bind fun _ t' ht' => ?_
    refine ⟨htries.of_unchanged (ht'.mono (by simp)) (ht' _ (by simp)),
      .inr ⟨not_cancelled (hquiet.trans (ht'.mono (by simp))),
        hshort.of_unchanged (ht'.mono (by simp)), b, ?_, rfl, iff_of_true nofun hpos⟩⟩
    have hending : bm.ending t' = bm.ending t := by
      funext name
      rw [ending, ending, (ht'.mono (by simp)).leaving, ht' (.unhealthy name) (by simp)]
    rw [hending]
    exact h.of_unchanged (ht'.mono (by simp))
  · have hpos : ¬0 < b.failed := fun hpos => hfailed (decide_eq_true hpos)
    rw [if_neg hfailed]
    exact ⟨htries, .inr ⟨not_cancelled hquiet, hshort, b, h, rfl, iff_of_false (by simp) hpos⟩⟩

theorem TriesAll.cons {o : Option String} (h : TriesAll bm t) (hphase : phase ≠ .discovery) :
    TriesAll bm (⟨.ctxErr phase, o⟩ :: t) := by
  refine h.of_unchanged ((Unchanged.refl _ t).cons (by simp)) ?_
  rw [told_cons]
  rcases o with _ | err
  · rfl
  · simp [Fact.toldBy, hphase]

/-- **What holds of every boot.** -/
theorem wp_bootAll : bm.bootAll.wp S (fun r t => Finished bm r t) [] := by
  refine wp_framed only_discoveryPhase [.up, .distribute, .check, .context] (by decide)
    wp_discoveryPhase fun b₁ t₁ h₁ hquiet₁ => wp_seam ?_
  rintro (_ | err)
  · -- the compose groups, with the context still alive
    have hquiet₁ := hquiet₁.pass .discovery
    refine wp_framed only_composePhase [.distribute, .check, .context] (by decide)
      (wp_composePhase h₁ (hquiet₁.mono (by simp))) ?_
    rintro b₂ t₂ ⟨files, h₂, hfiles⟩ hquiet₂
    have hquiet₂ := (hquiet₁.mono (by simp)).trans hquiet₂
    have htries₂ : TriesAll bm t₂ := fun file => by
      rw [h₂.tried, hfiles, hquiet₂ (.cancelled .discovery) (by simp)]
      simp
    refine wp_seam ?_
    rintro (_ | err)
    · -- the distribution, and the remote endpoints that are left
      have hquiet₂ := hquiet₂.pass .compose
      refine wp_framed only_distributePhase [.discover, .up, .check, .context] (by decide)
        (wp_distributePhase h₂.sound (hquiet₂.mono (by simp))) ?_
      rintro b₃ t₃ ⟨h₃, hshort₃⟩ hquiet₃
      refine wp_framed only_remotePhase [.discover, .up, .distribute, .check, .context] (by decide)
        (wp_remotePhase h₃) fun b₄ t₄ h₄ hquiet₄ => wp_seam ?_
      have hquiet₅ := hquiet₃.trans (hquiet₄.mono (by simp))
      have hshort₄ : Shortfall bm t₄ := hshort₃.of_unchanged (hquiet₄.mono (by simp))
      have htries₄ : TriesAll bm t₄ :=
        (htries₂.cons (by simp)).of_unchanged (hquiet₅.mono (by simp)) (hquiet₅ _ (by simp))
      rintro (_ | err)
      · -- the health checks
        have hquiet₆ : Unchanged [.check, .context] [] _ :=
          ((hquiet₂.mono (by simp)).trans (hquiet₅.mono (by simp))).pass .distribution
        refine wp_framed only_healthPhase [.discover, .up, .distribute, .context] (by decide)
          (wp_healthPhase h₄ (hquiet₆.mono (by simp))) fun b₅ t₅ h₅ hquiet₇ => ?_
        refine wp_conclude ((hquiet₆.mono (by simp)).trans (hquiet₇.mono (by simp))) ?_ ?_ h₅
        · exact (htries₄.cons (by simp)).of_unchanged (hquiet₇.mono (by simp)) (hquiet₇ _ (by simp))
        · refine Shortfall.of_unchanged ?_ (hquiet₇.mono (by simp))
          exact hshort₄
      · exact wp_cancelled (htries₄.cons (by simp))
    · exact wp_cancelled (htries₂.cons (by simp))
  · -- cancelled before the first Up
    refine wp_cancelled fun file => ?_
    have hup : Unchanged [.up] [] (⟨.ctxErr .discovery, (some err : Option String)⟩ :: t₁) :=
      Unchanged.cons (hquiet₁.mono (by simp)) (by simp)
    rw [hup (.broke file) (by simp), hup (.raised file) (by simp),
      told_cons]
    simp [Fact.toldBy]

end Containers.Boot
