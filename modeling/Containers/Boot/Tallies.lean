import Containers.Boot.Manager
import Containers.Lib.Loops

/-!
# What a boot makes of what it is told

A boot records a status for its endpoints, phase by phase, and a later phase may overwrite what an
earlier one recorded. What is recorded after a phase is a function of what the collaborators have
answered until then, whatever the order of the walks: `discovering`, `composing`, `distributing`,
`leaving`, `ending`.

With the statuses go the counters (`Tallied`). Started, Remote and Skipped are the numbers of the
endpoints with these statuses throughout. Discovered is not: a compose group whose Up fails
overwrites the results of endpoints that were found, and nothing takes these out of the counter; the
invariant carries their number (`lost`). Of Failed it is kept for whom it is positive (`Blamed`):
for a required endpoint that failed, or for any endpoint whose compose group failed.
-/

namespace Containers.Boot

open Go Loops BootManager Function List AList

variable {S : History → Event Outcome → Prop} {c : SeamCall} {α : Type}

/-! ### What the answers say -/

/-- The kinds of calls. -/
inductive Kind where
  | range
  | context
  | discover
  | up
  | distribute
  | check
  | undo
  deriving DecidableEq

variable {kinds A : List Kind}

@[simp] def SeamCall.kind : SeamCall → Kind
  | .range _ => .range
  | .ctxErr _ => .context
  | .discover _ => .discover
  | .up _ => .up
  | .distribute _ => .distribute
  | .checkAll _ => .check
  | .down _ | .undistribute => .undo

def Within (kinds : List Kind) (c : SeamCall) : Prop := c.kind ∈ kinds

/-- **What a boot can be told** by its collaborators. -/
inductive Fact where
  /-- The discoverer found the endpoint. -/
  | found (name : String)
  /-- The Up of the compose file failed. -/
  | broke (file : String)
  /-- The Up of the compose file succeeded. -/
  | raised (file : String)
  /-- The endpoint is among the first that the distributor was given, as many as it deployed. -/
  | deployed (name : String)
  /-- The endpoint is in the shortfall of the distribution. -/
  | missed (name : String)
  /-- The health check of the endpoint failed. -/
  | unhealthy (name : String)
  /-- The context was found cancelled after the phase. -/
  | cancelled (after : Phase)

@[simp] def Fact.kind : Fact → Kind
  | .found _ => .discover
  | .broke _ | .raised _ => .up
  | .deployed _ | .missed _ => .distribute
  | .unhealthy _ => .check
  | .cancelled _ => .context

def Fact.toldBy : Fact → (c : SeamCall) → Outcome c → Bool
  | .found name, .discover target, .ok true => target.name = name
  | .broke file, .up project, some _ => project.file = file
  | .raised file, .up project, none => project.file = file
  | .deployed name, .distribute names, r => name ∈ names.take r.1.toNat
  | .missed name, .distribute names, r => name ∈ names.drop r.1.toNat
  | .unhealthy name, .checkAll targets, r =>
    (targets.zip r.1).any fun x => x.1.name = name && !x.2.healthy
  | .cancelled after, .ctxErr phase, some _ => phase = after
  | _, _, _ => false

def told (f : Fact) (t : History) : Bool := t.any fun e => f.toldBy e.call e.outcome

section Told

variable {f : Fact} {t t' : History}

@[simp] theorem told_nil : told f [] = false := rfl

theorem told_cons (c : SeamCall) (o : Outcome c) :
    told f (⟨c, o⟩ :: t) = (f.toldBy c o || told f t) := rfl

theorem Fact.toldBy_of_kind_ne (c : SeamCall) (o : Outcome c) (h : c.kind ≠ f.kind) :
    f.toldBy c o = false := by
  rcases f <;> rcases c
  all_goals first | rfl | exact absurd rfl h

/-- **The frame rule**: calls of other kinds do not tell it. -/
theorem told_of_adds (h : Trace.Adds (Within kinds) t t') (hkind : f.kind ∉ kinds) :
    told f t' = told f t := by
  refine h.any_eq fun e he => f.toldBy_of_kind_ne e.call e.outcome ?_
  intro heq
  exact hkind (heq ▸ he)

theorem told_cons_of_kind_ne {o : Outcome c} (h : c.kind ≠ f.kind) :
    told f (⟨c, o⟩ :: t) = told f t := by
  rw [told_cons, f.toldBy_of_kind_ne c o h, Bool.false_or]

def Unchanged (kinds : List Kind) (t t' : History) : Prop :=
  ∀ f : Fact, f.kind ∈ kinds → told f t' = told f t

theorem Unchanged.refl (kinds : List Kind) (t : History) : Unchanged kinds t t := fun _ _ => rfl

theorem Unchanged.trans {t'' : History} (h : Unchanged kinds t t') (h' : Unchanged kinds t' t'') :
    Unchanged kinds t t'' :=
  fun f hf => (h' f hf).trans (h f hf)

theorem Unchanged.cons {o : Outcome c} (h : Unchanged kinds t t') (hkind : c.kind ∉ kinds) :
    Unchanged kinds t (⟨c, o⟩ :: t') := by
  intro f hf
  rw [told_cons_of_kind_ne, h f hf]
  rintro heq
  exact hkind (heq ▸ hf)

theorem Unchanged.pass (h : Unchanged kinds t t') (phase : Phase) :
    Unchanged kinds t (⟨.ctxErr phase, (none : Option String)⟩ :: t') := by
  intro f hf
  rw [← h f hf]
  rcases f <;> rfl

/-- **The frame rule**: a program that makes no call of these kinds is told nothing by them. -/
theorem wp_unchanged {p : Act α} (h : Prog.Only (Within A) p) (kinds : List Kind)
    (hkinds : ∀ kind ∈ kinds, kind ∉ A) (t : History) :
    p.wp S (fun _ t' => Unchanged kinds t t') t :=
  (h.wp_adds t).mono fun _ _ hadds f hf => told_of_adds hadds (hkinds f.kind hf)

theorem wp_framed {β : Type} {p : Act α} {k : α → Act β} {Q : α → History → Prop}
    {R : β → History → Prop} (h : Prog.Only (Within A) p) (kinds : List Kind)
    (hkinds : ∀ kind ∈ kinds, kind ∉ A) (hp : p.wp S Q t)
    (hk : ∀ a t', Q a t' → Unchanged kinds t t' → (k a).wp S R t') :
    (p >>= k).wp S R t := by
  rw [Prog.wp_bind]
  exact (hp.and (wp_unchanged h kinds hkinds t)).mono fun a t' h => hk a t' h.1 h.2

end Told

/-! ### The statuses after each phase -/

namespace BootManager

variable (bm : BootManager) (t : History) (name : String)

def groupFailed : Bool := bm.grouped name && told (.broke (bm.endpoint name).composeFile) t

def groupRaised : Bool := bm.grouped name && told (.raised (bm.endpoint name).composeFile) t

def discovering : Option Status :=
  if !(bm.endpoint name).enabled then some .skipped
  else if told (.found name) t then some .discovered
  else none

/-- After the compose groups. A failed group fails whatever was recorded; one that came up adds to
it. -/
def composing : Option Status :=
  if bm.groupFailed t name then some .failed
  else (bm.discovering t name).or
    (if bm.groupRaised t name then some (if (bm.endpoint name).remote then .remote else .started)
      else none)

def distributing : Option Status :=
  (bm.composing t name).or
    (if told (.deployed name) t then some .distributed
      else if told (.missed name) t then some .failed else none)

def leaving : Option Status :=
  (bm.distributing t name).or (if (bm.endpoint name).remote then some .remote else none)

/-- **At the end.** -/
def ending : Option Status :=
  if (bm.endpoint name).required && told (.unhealthy name) t then some .failed
  else bm.leaving t name

/-- A status for the endpoints, and none for other names. -/
def among (status : String → Option Status) (name : String) : Option Status :=
  if name ∈ bm.endpoints then status name else none

/-- The endpoints that were found and then failed with their group. -/
def lost : ℕ := bm.endpoints.keys.countP fun name => told (.found name) t && bm.groupFailed t name

end BootManager

namespace Unchanged

variable {bm : BootManager} {t t' : History}

theorem discovering (h : Unchanged [.discover] t t') : bm.discovering t' = bm.discovering t := by
  funext name
  rw [BootManager.discovering, BootManager.discovering, h (.found name) (by simp)]

theorem groupFailed (h : Unchanged [.up] t t') : bm.groupFailed t' = bm.groupFailed t := by
  funext name
  rw [BootManager.groupFailed, BootManager.groupFailed, h (.broke _) (by simp)]

theorem groupRaised (h : Unchanged [.up] t t') : bm.groupRaised t' = bm.groupRaised t := by
  funext name
  rw [BootManager.groupRaised, BootManager.groupRaised, h (.raised _) (by simp)]

theorem mono {kinds' : List Kind} (h : Unchanged kinds' t t') (hsub : kinds ⊆ kinds') :
    Unchanged kinds t t' :=
  fun f hf => h f (hsub hf)

theorem composing (h : Unchanged [.discover, .up] t t') : bm.composing t' = bm.composing t := by
  funext name
  rw [BootManager.composing, BootManager.composing, (h.mono (by simp)).discovering,
    (h.mono (by simp)).groupFailed, (h.mono (by simp)).groupRaised]

theorem lost (h : Unchanged [.discover, .up] t t') : bm.lost t' = bm.lost t := by
  rw [BootManager.lost, (h.mono (by simp)).groupFailed]
  refine countP_congr fun name _ => ?_
  rw [h (.found name) (by simp)]

theorem distributing (h : Unchanged [.discover, .up, .distribute] t t') :
    bm.distributing t' = bm.distributing t := by
  funext name
  rw [BootManager.distributing, BootManager.distributing, (h.mono (by simp)).composing,
    h (.deployed name) (by simp), h (.missed name) (by simp)]

theorem leaving (h : Unchanged [.discover, .up, .distribute] t t') :
    bm.leaving t' = bm.leaving t := by
  funext name
  rw [BootManager.leaving, BootManager.leaving, h.distributing]

end Unchanged

/-! ### The counters -/

/-- How many endpoints have a status that satisfies `p`. -/
def Booting.count (b : Booting) (p : Status → Bool) : ℕ :=
  GoMap.count (fun r => p r.status) b.results

/-- **What is recorded, and the counters for it.** -/
structure Tallied (known : String → Option Status) (lost : ℕ) (b : Booting) : Prop where
  status : ∀ name, b.status name = known name
  started : b.started = b.count (· = .started)
  remote : b.remote = b.count fun st => st = .remote || st = .distributed
  skipped : b.skipped = b.count (· = .skipped)
  discovered : b.discovered = b.count (· = .discovered) + lost

/-- **Whom the boot fails for**: an endpoint whose group broke, or a required one that failed. -/
structure Blamed (bm : BootManager) (broken : String → Bool) (b : Booting) : Prop where
  nonneg : 0 ≤ b.failed
  pos_iff : 0 < b.failed ↔
    ∃ name, broken name = true ∨ (bm.endpoint name).required = true ∧ b.status name = some .failed

variable {b b' : Booting} {known : String → Option Status} {lost : ℕ} {name m err : String}
  {names : List String} {r : BootResult} {bm : BootManager} {broken : String → Bool}

theorem Booting.status_eq_update (hres : b'.results = b.results.insert name r) :
    b'.status = update b.status name (some r.status) := by
  funext m
  rw [Booting.status, hres]
  by_cases hm : m = name
  · subst hm
    rw [lookup_insert, update_self]
    rfl
  · rw [lookup_insert_ne hm, update_of_ne hm]
    rfl

theorem Booting.count_eq (hres : b'.results = b.results.insert name r) (p : Status → Bool) :
    (b'.count p : ℤ) =
      b.count p - (if (b.status name).any p then 1 else 0) + if p r.status then 1 else 0 := by
  rw [Booting.count, hres, GoMap.count_insert, Booting.status, Option.any_map]
  rfl

theorem Tallied.mem_iff (h : Tallied known lost b) : name ∈ b.results ↔ known name ≠ none := by
  rw [← h.status, Booting.status, ne_eq, Option.map_eq_none_iff, lookup_eq_none, not_not]

theorem tallied_init : Tallied (fun _ => none) 0 {} where
  status _ := rfl
  started := rfl
  remote := rfl
  skipped := rfl
  discovered := rfl

/-- **Recording a result** keeps the counters exact if each counter moves as the statuses do. What
Discovered does not follow is lost. -/
theorem Tallied.record {lost' : ℕ} (h : Tallied known lost b)
    (hres : b'.results = b.results.insert name r)
    (hstarted : b'.started = b.started - (if (known name).any (· = .started) then 1 else 0) +
      if r.status = .started then 1 else 0)
    (hremote : b'.remote =
      b.remote - (if (known name).any (fun st => st = .remote || st = .distributed) then 1 else 0) +
        if r.status = .remote ∨ r.status = .distributed then 1 else 0)
    (hskipped : b'.skipped = b.skipped - (if (known name).any (· = .skipped) then 1 else 0) +
      if r.status = .skipped then 1 else 0)
    (hdiscovered : b'.discovered - lost' =
      b.discovered - lost - (if (known name).any (· = .discovered) then 1 else 0) +
        if r.status = .discovered then 1 else 0) :
    Tallied (update known name (some r.status)) lost' b' where
  status m := by
    rw [Booting.status_eq_update hres, funext h.status]
  started := by
    rw [Booting.count_eq hres, h.status, hstarted, h.started]
    simp
  remote := by
    rw [Booting.count_eq hres, h.status, hremote, h.remote]
    simp
  skipped := by
    rw [Booting.count_eq hres, h.status, hskipped, h.skipped]
    simp
  discovered := by
    have hcount := Booting.count_eq hres (· = .discovered)
    have hbefore := h.discovered
    rw [h.status] at hcount
    simp only [decide_eq_true_eq] at hcount
    omega

theorem Blamed.record_failed (h : Blamed bm broken b) (hres : b'.results = b.results.insert name r)
    (hstatus : r.status = .failed) (hwhom : broken name = true ∨ (bm.endpoint name).required = true)
    (hfailed : b'.failed = b.failed + 1) : Blamed bm broken b' where
  nonneg := by
    have hnonneg := h.nonneg
    omega
  pos_iff := by
    have hnonneg := h.nonneg
    refine ⟨fun _ => ⟨name, hwhom.imp id fun hrequired => ⟨hrequired, ?_⟩⟩, fun _ => by omega⟩
    rw [Booting.status_eq_update hres, update_self, hstatus]

theorem Blamed.record_other (h : Blamed bm broken b) (hres : b'.results = b.results.insert name r)
    (hsame : (bm.endpoint name).required = true →
      (some r.status = some .failed ↔ b.status name = some .failed))
    (hfailed : b'.failed = b.failed) : Blamed bm broken b' where
  nonneg := hfailed ▸ h.nonneg
  pos_iff := by
    rw [hfailed, h.pos_iff]
    refine exists_congr fun m => or_congr_right (and_congr_right fun hrequired => ?_)
    rw [Booting.status_eq_update hres]
    by_cases hm : m = name
    · subst hm
      rw [update_self]
      exact (hsame hrequired).symm
    · rw [update_of_ne hm]

/-- **The invariant of a boot**: the statuses with the counters, and whom it fails for. -/
structure Sound (bm : BootManager) (broken : String → Bool) (lost : ℕ)
    (known : String → Option Status) (b : Booting) : Prop where
  tallied : Tallied known lost b
  blamed : Blamed bm broken b

namespace Sound

/-- **Recording a first result**, in the counter that it belongs to. -/
theorem add (h : Sound bm broken lost known b) (hnone : known name = none)
    (hres : b'.results = b.results.insert name r)
    (hcount : b'.started = b.started + (if r.status = .started then 1 else 0) ∧
      b'.remote = b.remote + (if r.status = .remote ∨ r.status = .distributed then 1 else 0) ∧
      b'.skipped = b.skipped + (if r.status = .skipped then 1 else 0) ∧
      b'.discovered = b.discovered + (if r.status = .discovered then 1 else 0) ∧
      b'.failed =
        b.failed + if r.status = .failed ∧ (bm.endpoint name).required then 1 else 0) :
    Sound bm broken lost (update known name (some r.status)) b' := by
  obtain ⟨hstarted, hremote, hskipped, hdiscovered, hfailed⟩ := hcount
  refine ⟨h.tallied.record hres (by simpa [hnone]) (by simpa [hnone]) (by simpa [hnone])
    (by rw [hdiscovered]; simp [hnone]; ring), ?_⟩
  by_cases hblame : r.status = .failed ∧ (bm.endpoint name).required = true
  · rw [if_pos hblame] at hfailed
    exact h.blamed.record_failed hres hblame.1 (.inr hblame.2) hfailed
  · rw [if_neg hblame, add_zero] at hfailed
    refine h.blamed.record_other hres (fun hrequired => ?_) hfailed
    rw [h.tallied.status, hnone, Option.some_inj]
    exact iff_of_false (fun hstatus => hblame ⟨hstatus, hrequired⟩) nofun

theorem remember (h : Sound bm broken lost known b) {booted : List ComposeProject}
    {distributed : Bool} :
    Sound bm broken lost known { b with booted := booted, distributed := distributed } where
  tallied := { h.tallied with }
  blamed := { h.blamed with }

theorem add_unless (h : Sound bm broken lost known b) {status : Option Status}
    (hnew : known name = none →
      Sound bm broken lost (update known name status) b') :
    Sound bm broken lost (update known name ((known name).or status))
      (if name ∈ b.results then b else b') := by
  by_cases hmem : name ∈ b.results
  · rw [if_pos hmem]
    obtain ⟨st, hst⟩ := Option.ne_none_iff_exists'.mp (h.tallied.mem_iff.mp hmem)
    rw [hst, Option.some_or, ← hst, update_eq_self]
    exact h
  · have hnone : known name = none := by
      by_contra hsome
      exact hmem (h.tallied.mem_iff.mpr hsome)
    rw [if_neg hmem, hnone]
    exact hnew hnone

theorem startGroup (h : Sound bm broken lost known b) :
    Sound bm broken lost
      (update known name ((known name).or
        (some (if (bm.endpoint name).remote then .remote else .started))))
        (bm.startGroup b name) := by
  refine h.add_unless fun hnone => ?_
  by_cases hremote : (bm.endpoint name).remote = true
  · rw [if_pos hremote, if_pos hremote]
    exact h.add (r := { status := .remote }) hnone rfl (by simp [Booting.record])
  · rw [if_neg hremote, if_neg hremote]
    exact h.add (r := { status := .started }) hnone rfl (by simp [Booting.record])

theorem leaveRemote (h : Sound bm broken lost known b) :
    Sound bm broken lost
      (update known name ((known name).or
        (if (bm.endpoint name).remote then some .remote else none))) (bm.leaveRemote b name) := by
  refine h.add_unless fun hnone => ?_
  by_cases hremote : (bm.endpoint name).remote = true
  · rw [if_pos hremote, if_pos hremote]
    exact h.add (r := { status := .remote }) hnone rfl (by simp [Booting.record])
  · rw [if_neg hremote, if_neg hremote, ← hnone, update_eq_self]
    exact h

theorem attributeDeployed {distErr : Option String} {deployed total i : ℕ}
    (h : Sound bm broken lost known b) :
    Sound bm broken lost
      (update known name ((known name).or
        (some (if i < deployed then .distributed else .failed))))
      (bm.attributeDeployed distErr deployed total b (name, i)) := by
  refine h.add_unless fun hnone => ?_
  by_cases hi : i < deployed
  · rw [if_pos hi, if_pos hi]
    exact h.add (r := { status := .distributed }) hnone rfl (by simp [Booting.record])
  · rw [if_neg hi, if_neg hi]
    refine h.add (r := { status := .failed, error := _ }) hnone rfl ?_
    by_cases hrequired : (bm.endpoint name).required = true <;> simp [Booting.record, hrequired]

theorem failHealth {errors : GoMap String String} (h : Sound bm broken lost known b)
    (hskipped : known name ≠ some .skipped) :
    Sound bm broken lost
      (update known name
        (if (bm.endpoint name).required then some .failed else known name))
      (bm.failHealth errors b name) := by
  rw [BootManager.failHealth, h.tallied.status]
  by_cases hrequired : (bm.endpoint name).required = true
  · rw [if_pos hrequired]
    by_cases hfailed : known name = some .failed
    · rw [if_pos (by simp [hfailed]), ← hfailed, update_eq_self]
      exact h
    · rw [if_neg (by simp [hrequired, hfailed])]
      have hres : (uncount b name).results = b.results := by
        unfold uncount
        split <;> rfl
      let r : BootResult := { status := .failed, error := errors.lookup name }
      have hinsert := congrArg (·.insert name r) hres
      refine ⟨h.tallied.record (r := r) hinsert ?_ ?_ ?_ ?_,
        h.blamed.record_failed (r := r) hinsert rfl (.inr hrequired) rfl⟩
      all_goals
        simp only [uncount, h.tallied.status, Booting.record]
        rcases hknown : known name with _ | _ | _ | _ | _ | _ | _ <;> simp [r]
      · exact absurd hknown hskipped
      · omega
  · rw [if_neg hrequired, if_pos (by simp [hrequired]), update_eq_self]
    exact h

end Sound

theorem Tallied.foldl_failGroup (h : Tallied known lost b) (hnodup : names.Nodup)
    (hknown : ∀ name ∈ names, known name = none ∨ known name = some .discovered) :
    Tallied (fun name => if name ∈ names then some .failed else known name)
      (lost + names.countP (known · = some .discovered))
      (names.foldl (failGroup err) b) := by
  induction names generalizing known lost b with
  | nil => simpa using h
  | cons n names ih =>
    rw [nodup_cons] at hnodup
    have hn : Tallied (update known n (some .failed))
        (lost + if known n = some .discovered then 1 else 0) (failGroup err b n) := by
      refine h.record (r := { status := .failed, error := some err }) rfl ?_ ?_ ?_ ?_
      all_goals
        simp only [failGroup, Booting.record]
        rcases hknown n mem_cons_self with hn | hn <;> simp [hn] <;> omega
    have hne : ∀ m ∈ names, update known n (some .failed) m = known m := by
      intro m hm
      refine update_of_ne ?_ _ _
      rintro rfl
      exact hnodup.1 hm
    have hrest := ih hn hnodup.2 fun m hm => by
      rw [hne m hm]
      exact hknown m (mem_cons_of_mem n hm)
    rw [foldl_cons]
    convert hrest using 1
    · funext m
      by_cases hm : m = n
      · subst hm
        simp
      · simp [hm]
    · have hcount : names.countP
          (fun m => update known n (some .failed) m = some .discovered) =
            names.countP (known · = some .discovered) :=
        countP_congr fun m hm => by rw [hne m hm]
      rw [countP_cons]
      simp only [decide_eq_true_eq]
      omega

theorem failed_foldl_failGroup :
    (names.foldl (failGroup err) b).failed = b.failed + names.length := by
  induction names generalizing b with
  | nil => simp
  | cons n names ih =>
    rw [foldl_cons, ih, length_cons]
    simp only [failGroup]
    push_cast
    ring

end Containers.Boot
