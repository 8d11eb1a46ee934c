import Containers.Lib.Loops
import Containers.Lifecycle.Boots
import Containers.Lifecycle.Handles

/-!
# Reviving a lazy service

The first `Acquire` of a lazy service makes a booter, which starts the service once and keeps what
this came to for all who ask later. A `Stop` that succeeds takes the booter away, and so does an
`Acquire` that finds that it has failed; so a booter that has run is kept only as long as the
service is up, or was meant to be.

That is the invariant (`LazyInv`): a booter that came out well leaves the service *live*, that is
`running` or in the hands of a `Stop`. Two writes break it: a boot that fails writes `stopped` even
when a later one has made the service `running`, and a `Stop` whose `Down` fails writes `running`
even when a later boot is under way, which then takes the service for cancelled
(`stopped_with_fired_booter`). So the property is proved of the runs in which a boot that fails
writes this only while it is the latest, and a `Stop` whose `Down` has failed only when the latest
is over (`revivable_of_stopped`).
-/

namespace Containers.Lifecycle

open Sections List ThreadSystem

variable {g u : Frame} {op : ℕ} {M : DefaultManager} {m m' : Memory} {o : Option String}
  {n : String} {v v' : View} {f : Frame} {A B used made F : List Frame} {p p' : StartPoint}
  {done : List ComposeEvent} {s : State} {c : Call}

/-! ### The boots in flight -/

/-- The handle of a boot of the service that is in flight. -/
def Frame.bootOf (n : String) : Frame → Option ℕ
  | .start n' p => if n' = n ∧ p.boots then some p.op else none
  | _ => none

def bootsOf (n : String) (F : List Frame) : List ℕ := F.filterMap (·.bootOf n)

theorem bootsOf_of_some (h : g.bootOf n = some op) :
    (bootsOf n (A ++ g :: B)).Perm (op :: bootsOf n (A ++ B)) :=
  Loops.perm_filterMap_middle h

theorem bootsOf_of_none (h : g.bootOf n = none) :
    bootsOf n (A ++ g :: B) = bootsOf n (A ++ B) := Loops.filterMap_middle h

theorem bootOf_start (hp : p.boots = true) :
    (Frame.start n p).bootOf n = some p.op := if_pos ⟨rfl, hp⟩

/-! ### The condition on the steps -/

def Frame.failing (n : String) : Frame → Option ℕ
  | .start n' (.fail op _) => if n' = n then some op else none
  | _ => none

/-- A `Stop` of the service that is about to write that its `Down` has failed. -/
def Frame.undowned (n : String) : Frame → Bool
  | .stop n' _ (.write _ (some _)) => n' = n
  | _ => false

/-- **The condition**: a boot that fails writes this only while it is the latest of the service,
and a `Stop` whose `Down` has failed only when the latest is over. -/
def WritesInOrder (n : String) (v : View) (f : Frame) (_ : Option String) : Prop :=
  (∀ op ∈ f.failing n, v.startOp = some op) ∧
    (f.undowned n = true → ∀ op ∈ v.startOp, op ∉ bootsOf n v.flight)

instance : Decidable (WritesInOrder n v f o) := inferInstanceAs (Decidable (_ ∧ _))

/-! ### The latest boot of a running service is over -/

/-- **The invariant of the boots.** -/
structure BootInv (n : String) (v : View) : Prop where
  fresh : ∀ op ∈ bootsOf n v.flight, op < v.nextOp
  nodup : (bootsOf n v.flight).Nodup
  running : v.state = .running → ∀ op ∈ v.startOp, op ∉ bootsOf n v.flight

theorem bootInv_initial : BootInv n ⟨.stopped, none, 0, [], []⟩ where
  fresh _ h := absurd h not_mem_nil
  nodup := nodup_nil
  running h := by cases h

theorem BootInv.keep (hv : BootInv n v) (hboots : (bootsOf n v'.flight).Perm (bootsOf n v.flight))
    (hnext : v.nextOp ≤ v'.nextOp) (hop : v'.startOp = v.startOp)
    (hrunning : v'.state = .running →
      v.state = .running ∨ ∀ op ∈ v.startOp, op ∉ bootsOf n v.flight) : BootInv n v' := by
  refine ⟨fun op h => ?_, hboots.nodup_iff.mpr hv.nodup, fun hstate op h hmem => ?_⟩
  · exact (hv.fresh op (hboots.mem_iff.mp h)).trans_le hnext
  · rw [hop] at h
    exact (hrunning hstate).elim (fun hold => hv.running hold op h (hboots.mem_iff.mp hmem))
      fun hover => hover op h (hboots.mem_iff.mp hmem)

theorem BootInv.remove (hv : BootInv n v) (op : ℕ)
    (hboots : (bootsOf n v.flight).Perm (op :: bootsOf n v'.flight)) (hnext : v'.nextOp = v.nextOp)
    (hop : v'.startOp = v.startOp)
    (hrunning : v'.state = .running → v.state = .running ∨ v.startOp = some op) :
    BootInv n v' := by
  have hnodup := nodup_cons.mp (hboots.nodup_iff.mp hv.nodup)
  have hmem : ∀ op' ∈ bootsOf n v'.flight, op' ∈ bootsOf n v.flight := fun op' h =>
    hboots.mem_iff.mpr (mem_cons_of_mem _ h)
  refine ⟨fun op' h => ?_, hnodup.2, fun hstate op' h hop' => ?_⟩
  · rw [hnext]
    exact hv.fresh op' (hmem op' h)
  · rw [hop] at h
    rcases hrunning hstate with hold | hself
    · exact hv.running hold op' h (hmem op' hop')
    · cases hself.symm.trans h
      exact hnodup.1 hop'

theorem Advance.boots (h : Advance M n o p p' done) : p.boots = true ∧ p'.boots = true := by
  cases h <;> exact ⟨rfl, rfl⟩

theorem Advance.bootsOf_perm
    (h : Advance M n o p p' done) :
    (bootsOf n (A ++ Frame.start n p' :: B)).Perm (bootsOf n (A ++ Frame.start n p :: B)) := by
  obtain ⟨hp, hp'⟩ := h.boots
  refine (bootsOf_of_some (bootOf_start hp')).trans ?_
  rw [h.op_eq]
  exact (bootsOf_of_some (bootOf_start hp)).symm

theorem BootInv.move (hv : BootInv n v) (hD : WritesInOrder n v f o) (h : Move M n v f o v') :
    BootInv n v' := by
  cases h with
  | quiet => exact hv
  | fresh => exact hv.keep (.refl _) (Nat.le_succ _) rfl .inl
  | @lead A B deps hf hstate hflight =>
    have hboots : (bootsOf n (A ++ Frame.start n (.deps v.nextOp deps) :: B)).Perm
        (v.nextOp :: bootsOf n v.flight) := by
      rw [hflight]
      exact bootsOf_of_some (bootOf_start rfl)
    have hnew : v.nextOp ∉ bootsOf n v.flight := fun h => lt_irrefl _ (hv.fresh _ h)
    refine ⟨fun op h => ?_, hboots.nodup_iff.mpr (nodup_cons.mpr ⟨hnew, hv.nodup⟩),
      fun hs => by cases hs⟩
    rcases mem_cons.mp (hboots.mem_iff.mp h) with rfl | h
    · exact Nat.lt_succ_self _
    · exact (hv.fresh op h).trans (Nat.lt_succ_self _)
  | advance hf hflight hadvance =>
    refine hv.keep ?_ le_rfl rfl .inl
    rw [hflight]
    exact hadvance.bootsOf_perm
  | @fail A B op err hf hflight =>
    refine hv.remove op ?_ rfl rfl fun hs => by cases hs
    rw [hflight]
    exact bootsOf_of_some (bootOf_start rfl)
  | @commit A B op hflight =>
    refine hv.remove op ?_ rfl rfl fun hs => ?_
    · rw [hflight]
      exact bootsOf_of_some (bootOf_start rfl)
    · by_cases hop : v.startOp = some op
      · exact .inr hop
      · exact .inl (by rwa [if_neg hop] at hs)
  | stop hf hstate hflight =>
    refine hv.keep ?_ le_rfl rfl fun hs => by cases hs
    rw [hflight, bootsOf_of_none rfl]
  | proceed hf hflight h =>
    refine hv.keep ?_ le_rfl rfl .inl
    rw [hflight, bootsOf_of_none rfl, bootsOf_of_none rfl]
  | @write A B idle found err hf hflight =>
    refine hv.keep ?_ le_rfl rfl fun hs => .inr (hD.2 ?_)
    · rw [hflight, bootsOf_of_none rfl]
    · cases err with
      | none => cases hs
      | some err =>
        rw [hf]
        simp [Frame.undowned]

/-! ### Live services -/

/-- **The service is live**: `running`, or in the hands of a `Stop`. -/
def View.Live (n : String) (v : View) : Prop :=
  v.state = .running ∨ ∃ g ∈ v.flight, g.stops n = true

/-- **A service is live until a `Stop` has stopped it.** -/
theorem Move.live (h : Move M n v f o v') (hv : BootInv n v) (hD : WritesInOrder n v f o)
    (hlive : v.Live n) : v'.Live n ∨ ∃ idle found, f = .stop n idle (.write found none) := by
  -- a `Stop` stays in flight when another frame goes
  have hstops : ∀ {A B : List Frame} {g : Frame}, v.flight = A ++ g :: B → g.stops n = false →
      (∃ g' ∈ v.flight, g'.stops n = true) → ∃ g' ∈ A ++ B, g'.stops n = true := by
    rintro A B g hflight hg ⟨g', hg', hstops⟩
    rw [hflight] at hg'
    rcases mem_before.mp hg' with rfl | hg'
    · cases hg.symm.trans hstops
    · exact ⟨g', hg', hstops⟩
  -- while the latest boot is in flight, it takes a `Stop` to be live
  have hlatest : ∀ {A B : List Frame} {p : StartPoint}, v.flight = A ++ Frame.start n p :: B →
      p.boots = true → v.startOp = some p.op → ∃ g ∈ A ++ B, g.stops n = true := by
    intro A B p hflight hp hop
    refine hstops hflight rfl (hlive.resolve_left fun hs => hv.running hs p.op hop ?_)
    rw [hflight]
    exact (bootsOf_of_some (bootOf_start hp)).mem_iff.mpr mem_cons_self
  cases h with
  | quiet | fresh => exact .inl hlive
  | @lead A B deps hf hstate hflight =>
    obtain ⟨g, hg, hstop⟩ := hlive.resolve_left fun hs => by
      rcases hstate with h | h <;> cases h.symm.trans hs
    rw [hflight] at hg
    exact .inl (.inr ⟨g, mem_of_mem_rest hg, hstop⟩)
  | advance hf hflight h =>
    refine .inl (hlive.imp_right fun hs => ?_)
    obtain ⟨g, hg, hstop⟩ := hstops hflight rfl hs
    exact ⟨g, mem_of_mem_rest hg, hstop⟩
  | @fail A B op err hf hflight =>
    exact .inl (.inr (hlatest hflight rfl (hD.1 op (by simp [hf, Frame.failing]))))
  | @commit A B op hflight =>
    by_cases hop : v.startOp = some op
    · exact .inl (.inr (hlatest hflight rfl hop))
    · refine .inl (hlive.imp (fun hs => ?_) (hstops hflight rfl))
      rw [if_neg hop]
      exact hs
  | stop hf hstate hflight =>
    exact .inl (.inr ⟨_, mem_subject, stops_stop (by simp)⟩)
  | proceed hf hflight h =>
    refine .inl (.inr ⟨_, mem_subject, stops_stop ?_⟩)
    cases h <;> simp
  | @write A B idle found err hf hflight =>
    cases err with
    | none => exact .inr ⟨idle, found, hf⟩
    | some err => exact .inl (.inl rfl)

/-- **A live service is live after a step**, or it has lost its booter. -/
def StaysLive (n : String) (m : Memory) (F : List Frame) (m' : Memory) (F' : List Frame) : Prop :=
  (view n m F).Live n → (view n m' F').Live n ∨ (m'.entry n).lazyBooter = none

section Turn

variable (hturn : Turn M m o used m' made) (howned : Owned m (A ++ (used ++ B)))
include hturn

theorem live_of_turn (hv : BootInv n (view n m (A ++ (used ++ B))))
    (hD : ∀ f ∈ used.head?, WritesInOrder n (view n m (A ++ (used ++ B))) f o) :
    StaysLive n m (A ++ (used ++ B)) m' (A ++ (made ++ B)) := by
  intro hlive
  obtain ⟨f, hf, hmove⟩ := move_of_turn hturn (n := n) (A := A) (B := B)
  refine (hmove.live hv (hD f hf) hlive).imp_right ?_
  rintro ⟨idle, found, rfl⟩
  cases hturn with
  | step hstep =>
    cases hf
    cases hstep
    rw [entry_modify]
  | resume | leave => cases hf

/-! ### Boots that came out well -/

/-- A boot that came out well, and whose leader has not told so yet. -/
def Frame.succeeds (op : ℕ) : Frame → Bool
  | .start _ (.monitor op') | .start _ (.arm op' _) | .start _ (.finish op' none) => op' = op
  | _ => false

/-- **The boot came out well.** -/
def Committed (m : Memory) (F : List Frame) (op : ℕ) : Prop :=
  (m.startOp op).done = true ∧ (m.startOp op).err = none ∨ ∃ g ∈ F, g.succeeds op = true

omit hturn in
theorem Committed.of_ops (h : Committed m' (A ++ (made ++ B)) op)
    (hops : (m'.startOp op).done = true → (m'.startOp op).err = none →
      Committed m (A ++ (used ++ B)) op)
    (hmade : made.any (·.succeeds op) = true → used.any (·.succeeds op) = true) :
    Committed m (A ++ (used ++ B)) op := by
  rcases h with ⟨hdone, herr⟩ | ⟨g, hg, hsucceeds⟩
  · exact hops hdone herr
  · refine .inr ?_
    rcases mem_after.mp hg with hg | hg
    · obtain ⟨g', hg', hs'⟩ := any_eq_true.mp (hmade (any_eq_true.mpr ⟨g, hg, hsucceeds⟩))
      exact ⟨g', mem_after.mpr (.inl hg'), hs'⟩
    · exact ⟨g, mem_after.mpr (.inr hg), hsucceeds⟩

/-- **A boot comes out well only by its leader's last section.** -/
theorem Committed.turn (h : Committed m' (A ++ (made ++ B)) op) :
    Committed m (A ++ (used ++ B)) op ∨
      ∃ n, used = [.start n (.commit op)] ∧ (m'.entry n).state = .running := by
  have hops : m'.startOp = m.startOp →
      (made.any (·.succeeds op) = true → used.any (·.succeeds op) = true) →
      Committed m (A ++ (used ++ B)) op :=
    fun hops => h.of_ops fun hdone herr => .inl (by rw [← hops]; exact ⟨hdone, herr⟩)
  have hnone : m'.startOp = m.startOp → made.any (·.succeeds op) = false →
      Committed m (A ++ (used ++ B)) op :=
    fun hsame hmade => hops hsame fun hs => by cases hmade.symm.trans hs
  cases turnStep_of_turn hturn with
  | @start n _ _ _ hstep =>
    cases startStep_cases hstep with
    | follow | ready | up | noUp | upFailed | noCheck | healthy | unhealthy | fail | cancelled
      | superseded => exact .inl (hnone rfl rfl)
    | check =>
      refine .inl (hnone ?_ rfl)
      split_ifs <;> rfl
    | lead =>
      refine .inl (h.of_ops (fun hdone herr => ?_) fun hs => by cases hs)
      rw [startOp_lead, Function.update_apply] at hdone herr
      split_ifs at hdone herr
      exact .inl ⟨hdone, herr⟩
    | @own op' hop hstate =>
      by_cases heq : op' = op
      · subst heq
        exact .inr ⟨n, rfl, by rw [Memory.setState, entry_modify]⟩
      · exact .inl (hnone rfl (by simp [Frame.succeeds, heq]))
    | monitor | noMonitor | arm => exact .inl (hops rfl id)
  | @startRet n _ _ _ hstep =>
    cases startStep_cases hstep with
    | @finish op' err =>
      refine .inl (h.of_ops (fun hdone herr => ?_) fun hs => by cases hs)
      rw [startOp_settle] at hdone herr
      split_ifs at hdone herr with heq
      · -- what the leader tells is what it came to
        cases herr
        exact .inr ⟨.start n (.finish op' none), by simp, by simp [Frame.succeeds, heq]⟩
      · exact .inl ⟨hdone, herr⟩
    | missing | already | orphaned | told => exact .inl (hnone rfl rfl)
  | stop hstep | stopRet hstep => exact .inl (hnone (unled_of_stopStep hstep).2 rfl)
  | acquire hstep | acquireRet hstep =>
    exact .inl (hnone (beside_of_acquireStep hstep).1.ops rfl)
  | acquireCall hstep => exact .inl (hnone (beside_of_acquireStep hstep).1.ops rfl)
  | release _ hstep | releaseRet _ hstep =>
    exact .inl (hnone (beside_of_releaseStep hstep).1.ops rfl)
  | fire _ hstep | fireRet _ hstep =>
    exact .inl (hnone (keeps_of_fireStep hstep).2.1.ops rfl)
  | depRet hp =>
    refine .inl (hnone rfl ?_)
    rcases hp with ⟨-, rfl⟩ | ⟨text, rfl⟩ <;> rfl
  | startCall | shutdown => exact .inl (hnone rfl rfl)
  | shutdownRet | bootRet | nextStop => exact .inl (hnone rfl rfl)
  | leave => exact .inl (hnone rfl rfl)

omit hturn in
theorem handle_of_succeeds (h : g.succeeds op = true) :
    ∃ n p, g = .start n p ∧ p.handle = some op := by
  cases g with
  | start n p =>
    cases p with
    | monitor op' | arm op' _ =>
      cases of_decide_eq_true h
      exact ⟨n, _, rfl, rfl⟩
    | finish op' err =>
      cases err with
      | none =>
        cases of_decide_eq_true h
        exact ⟨n, _, rfl, rfl⟩
      | some err => cases h
    | enter | wait | deps | awaitDep | up | check | health | fail | commit => cases h
  | stop | acquire | release | fire | shutdown | ret => cases h

/-- **A boot that is under way** has not come out well yet. -/
def Pending (m : Memory) (F : List Frame) : Prop :=
  ∀ n, (m.entry n).state = .starting → ∀ op ∈ (m.entry n).startOp, ¬Committed m F op

omit hturn in
theorem not_committed_lead (howned : Owned m F) (hF : ∀ x ∈ A ++ B, x ∈ F)
    (hg : g.succeeds m.nextOp = false) : ¬Committed (m.lead n) (A ++ ([g] ++ B)) m.nextOp := by
  rintro (⟨hdone, -⟩ | ⟨x, hx, hs⟩)
  · rw [startOp_lead, Function.update_self] at hdone
    cases hdone
  · rcases mem_before.mp hx with rfl | hx
    · cases hg.symm.trans hs
    · obtain ⟨n', p, rfl, hp⟩ := handle_of_succeeds hs
      have hlt : m.OwnsOp n' m.nextOp := howned.frames _ (hF _ hx) _ hp
      exact lt_irrefl _ hlt.1

include howned in
theorem Pending.turn (h : Pending m (A ++ (used ++ B))) : Pending m' (A ++ (made ++ B)) := by
  -- a boot that was under way has come out well only if its service is `running`
  have hold : ∀ n, (m.entry n).state = .starting → ∀ op ∈ (m.entry n).startOp,
      Committed m' (A ++ (made ++ B)) op → (m'.entry n).state = .running := by
    intro n hstate op hop hcommitted
    rcases hcommitted.turn hturn with hc | ⟨n', rfl, hrunning⟩
    · exact absurd hc (h n hstate op hop)
    · have hleads : m.OwnsOp n' op := howned.frames (.start n' (.commit op)) (by simp) op rfl
      cases hleads.2.symm.trans (howned.op n op hop).2
      exact hrunning
  intro n hstate op hop hcommitted
  rcases unled_of_turn hturn with hunled | ⟨n', deps, rfl, rfl, rfl⟩
  · rw [hunled.startOp] at hop
    cases (hold n (hunled.starting n hstate) op hop hcommitted).symm.trans hstate
  · by_cases hn : n = n'
    · subst hn
      rw [entry_lead, if_pos rfl] at hop
      cases hop
      exact not_committed_lead howned (fun x => mem_of_mem_rest) rfl hcommitted
    · have hentry : (m.lead n').entry n = m.entry n := by rw [entry_lead, if_neg hn]
      rw [hentry] at hop
      have hrunning := hold n (by rwa [hentry] at hstate) op hop hcommitted
      cases hrunning.symm.trans hstate

/-! ### What a booter comes to -/

/-- The call is about to return without an error, whatever happens. -/
def Frame.Vouches (m : Memory) (F : List Frame) : Frame → Prop
  | .ret none | .start _ (.monitor _) | .start _ (.arm _ _) | .start _ (.finish _ none) => True
  | .start _ (.wait op) => Committed m F op
  | _ => False

omit hturn in
theorem Frame.Vouches.mono {F' : List Frame} (h : g.Vouches m F)
    (hF : ∀ op, Committed m F op → Committed m' F' op) : g.Vouches m' F' := by
  cases g with
  | start n p =>
    cases p with
    | wait op => exact hF op h
    | finish op err => cases err <;> exact h
    | enter | deps | awaitDep | up | check | health | fail | commit | monitor | arm => exact h
  | ret err => cases err <;> exact h
  | stop | acquire | release | fire | shutdown => exact h

/-- The frame is of a `Start` of the service, or of one that has returned. -/
def Frame.OfStart (n : String) (g : Frame) : Prop := (∃ p, g = .start n p) ∨ ∃ err, g = .ret err

omit hturn in
theorem Calls.ofStart {b : ℕ} (h : Calls (.acquire n (.booting b)) g) : g.OfStart n := by
  cases h with
  | bootDone => exact .inr ⟨_, rfl⟩
  | boot => exact .inl ⟨_, rfl⟩

theorem Frame.OfStart.turn (hu : used.getLast? = some u) (hg : made.getLast? = some g)
    (h : u.OfStart n) : g.OfStart n := by
  cases turnStep_of_turn hturn with
  | start | startCall | depRet =>
    cases hu
    cases hg
    rcases h with ⟨q, hq⟩ | ⟨err, herr⟩
    · cases hq
      exact .inl ⟨_, rfl⟩
    · cases herr
  | startRet | stopRet | acquireRet | releaseRet | fireRet | shutdownRet =>
    cases hg
    exact .inr ⟨_, rfl⟩
  | leave => cases hg
  | _ =>
    cases hu
    rcases h with ⟨q, hq⟩ | ⟨err, herr⟩
    · cases hq
    · cases herr

include howned

/-- **A `Start` that did not vouch for the service before and does now**, and made no step, has
seen its boot come out well. -/
theorem vouches_before (hg : g ∈ A ++ (used ++ B)) (hstart : g.OfStart n)
    (h : g.Vouches m' (A ++ (made ++ B))) :
    g.Vouches m (A ++ (used ++ B)) ∨ (m'.entry n).state = .running := by
  rcases hstart with ⟨p, rfl⟩ | ⟨err, rfl⟩
  · cases p with
    | wait op =>
      refine (Committed.turn hturn h).imp_right ?_
      rintro ⟨n', rfl, hrunning⟩
      -- the boot that is followed is a boot of the service
      have hleads : m.OwnsOp n' op := howned.frames (.start n' (.commit op)) (by simp) op rfl
      have hfollows : m.OwnsOp n op := howned.frames _ hg op rfl
      cases hleads.2.symm.trans hfollows.2
      exact hrunning
    | finish op err => cases err <;> exact .inl h
    | enter | deps | awaitDep | up | check | health | fail | commit | monitor | arm => exact .inl h
  · cases err <;> exact .inl h

/-- **A `Start` that makes a step and comes to vouch for the service** has seen it `running`. -/
theorem vouches_of_turn (hpending : Pending m (A ++ (used ++ B))) (hu : used.getLast? = some u)
    (hg : made.getLast? = some g) (hstart : u.OfStart n) (h : g.Vouches m' (A ++ (made ++ B))) :
    u.Vouches m (A ++ (used ++ B)) ∨ (m.entry n).state = .running ∨
      (m'.entry n).state = .running := by
  -- the step is one of the `Start`
  have hself : ∀ {n' p}, u = .start n' p → n' = n := by
    rintro n' p rfl
    rcases hstart with ⟨q, hq⟩ | ⟨err, herr⟩
    · cases hq
      rfl
    · cases herr
  cases turnStep_of_turn hturn with
  | start hstep =>
    cases hu
    cases hg
    cases hself rfl
    cases startStep_cases hstep with
    | follow hspec hstate hop =>
      exact absurd h (hpending.turn hturn howned n hstate _ hop)
    | own => exact .inr (.inr (by rw [Memory.setState, entry_modify]))
    | monitor | noMonitor | arm => exact .inl trivial
    | _ => exact absurd h id
  | @startRet _ _ _ err hstep =>
    cases hu
    cases hg
    cases hself rfl
    cases startStep_cases hstep with
    | missing => exact absurd h id
    | already hspec hstate => exact .inr (.inl hstate)
    | orphaned hspec hstate hop => exact absurd hop (howned.starting n hstate)
    | @told op hdone =>
      have herr : (m.startOp op).err = none := by
        cases herr : (m.startOp op).err with
        | none => rfl
        | some err =>
          rw [herr] at h
          exact absurd h id
      exact .inl (.inl ⟨hdone, herr⟩)
    | finish =>
      cases err with
      | none => exact .inl trivial
      | some err => exact absurd h id
  | depRet hp =>
    cases hg
    rcases hp with ⟨-, rfl⟩ | ⟨text, rfl⟩ <;> exact absurd h id
  | leave => cases hg
  | stopRet | acquireRet | releaseRet | fireRet | shutdownRet =>
    cases hu
    rcases hstart with ⟨q, hq⟩ | ⟨err, herr⟩
    · cases hq
    · cases herr
  | _ =>
    cases hg
    exact absurd h id

/-- Where a booter of the service is about to come out well, the service is live. -/
def Backed (n : String) (m : Memory) (F : List Frame) (g f : Frame) : Prop :=
  ∀ b ∈ (m.entry n).lazyBooter, f = .acquire n (.booting b) → g.Vouches m F → (view n m F).Live n

/-- A booter that has come out well leaves the service live, and one that is at work or has
failed has an `Acquire` that waits for it or will take it away. -/
structure Accounted (n : String) (m : Memory) (F : List Frame) (b : ℕ) : Prop where
  booting : (m.booter b).started = .starting → .acquire n (.booting b) ∈ F
  booted : (m.booter b).started = .started → (m.booter b).err = none → (view n m F).Live n
  failed : (m.booter b).started = .started → (m.booter b).err ≠ none →
    ∃ text, .acquire n (.bootFailed b text) ∈ F

/-- **The invariant.** -/
structure LazyInv (n : String) (m : Memory) (T : List (List Frame)) : Prop where
  above : ∀ st ∈ T, st.IsChain (Backed n m T.flatten)
  booter : ∀ b ∈ (m.entry n).lazyBooter, Accounted n m T.flatten b

variable (hlive : StaysLive n m (A ++ (used ++ B)) m' (A ++ (made ++ B)))
include hlive

/-- **What was backed is backed**, if a call that vouches for the service vouched for it before,
or has seen it `running`. -/
theorem Backed.of_vouches (hf : f ∈ A ++ (used ++ B)) (h : Backed n m (A ++ (used ++ B)) u f)
    (hvouches : ∀ b, f = .acquire n (.booting b) → g.Vouches m' (A ++ (made ++ B)) →
      u.Vouches m (A ++ (used ++ B)) ∨ (m.entry n).state = .running ∨
        (m'.entry n).state = .running) : Backed n m' (A ++ (made ++ B)) g f := by
  rintro b hb rfl hv
  have hstays := fun hl => (hlive hl).resolve_right fun hnone => by cases hnone.symm.trans hb
  rcases hvouches b rfl hv with hvouched | hrunning | hrunning
  · refine hstays (h b (((grows_of_turn hturn).booter n b hb).resolve_right ?_) rfl hvouched)
    -- the booter is not a new one, since it is at work
    rintro ⟨rfl, -⟩
    exact lt_irrefl _ (howned.frames _ hf _ rfl).1
  · exact hstays (.inl hrunning)
  · exact .inl hrunning

theorem Backed.turn (hg : g ∈ A ++ (used ++ B)) (hf : f ∈ A ++ (used ++ B)) (hcalls : Calls f g)
    (h : Backed n m (A ++ (used ++ B)) g f) : Backed n m' (A ++ (made ++ B)) g f := by
  refine h.of_vouches hturn howned hlive hf ?_
  rintro b rfl hv
  exact (vouches_before hturn howned hg hcalls.ofStart hv).imp_right .inr

theorem backed_of_turn (hpending : Pending m (A ++ (used ++ B))) (hu : used.getLast? = some u)
    (hg : made.getLast? = some g) (hf : f ∈ A ++ (used ++ B)) (hcalls : Calls f u)
    (h : Backed n m (A ++ (used ++ B)) u f) :
    Backed n m' (A ++ (made ++ B)) g f := by
  refine h.of_vouches hturn howned hlive hf ?_
  rintro b rfl hv
  exact vouches_of_turn hturn howned hpending hu hg hcalls.ofStart hv

omit howned hlive in
theorem exists_getLast_of_turn : ∃ u, used.getLast? = some u := by
  cases hturn <;> exact ⟨_, rfl⟩

end Turn

theorem lazyInv_initial : LazyInv n {} [] where
  above _ h := absurd h not_mem_nil
  booter _ h := by cases h

section Stacks

variable {T T' : List (List Frame)} {rest : List Frame} (hturn : Turn M m o used m' made)
  (h : LazyInv n m (T ++ (used ++ rest) :: T')) (horderly : Orderly m (T ++ (used ++ rest) :: T'))
  (hlive : StaysLive n m (T ++ (used ++ rest) :: T').flatten m' (T ++ (made ++ rest) :: T').flatten)
include hturn h horderly hlive

theorem LazyInv.above_turn (hpending : Pending m (T ++ (used ++ rest) :: T').flatten) :
    ∀ st ∈ T ++ (made ++ rest) :: T',
      st.IsChain (Backed n m' (T ++ (made ++ rest) :: T').flatten) := by
  have habove := h.above
  obtain ⟨howned, hstacked⟩ := horderly
  rw [flatten_turn] at howned hpending habove
  rw [flatten_turn, flatten_turn] at hlive
  rw [flatten_turn]
  -- the frames that stay
  have hstay : ∀ st, (∀ x ∈ st, x ∈ T.flatten ++ (used ++ (rest ++ T'.flatten))) → Stacked st →
      st.IsChain (Backed n m (T.flatten ++ (used ++ (rest ++ T'.flatten)))) →
      st.IsChain (Backed n m' (T.flatten ++ (made ++ (rest ++ T'.flatten)))) := by
    intro st hst hs hb
    rw [Stacked, isChain_iff_forall_rel_of_append_cons_cons] at hs
    rw [isChain_iff_forall_rel_of_append_cons_cons] at hb ⊢
    intro g f l₁ l₂ heq
    exact (hb heq).turn hturn howned hlive (hst g (by simp [heq])) (hst f (by simp [heq])) (hs heq)
  refine forall_mem_before ?_ fun st hst => hstay st (fun x hx => ?_)
    (forall_mem_others hstacked st hst) (forall_mem_others habove st hst)
  · have hself : used ++ rest ∈ T ++ (used ++ rest) :: T' := mem_subject
    obtain ⟨-, hrest, hjoin⟩ := isChain_append.mp (hstacked _ hself)
    obtain ⟨-, hrest', hjoin'⟩ := isChain_append.mp (habove _ hself)
    refine isChain_append.mpr ⟨?_, hstay rest (fun x hx => by simp [hx]) hrest hrest', ?_⟩
    · refine (entered_of_turn hturn).imp ?_
      rintro g f (⟨n', rfl⟩ | ⟨n', idle, rfl⟩) b hb hf hvouches <;> exact absurd hvouches id
    · intro g hg f hf
      obtain ⟨u, hu⟩ := exists_getLast_of_turn hturn
      exact backed_of_turn hturn howned hlive hpending hu hg
        (by simp [mem_of_mem_head? hf]) (hjoin u hu f hf) (hjoin' u hu f hf)
  · rw [← flatten_turn]
    exact mem_flatten_of_mem (mem_of_mem_rest hst) hx

theorem LazyInv.booter_turn :
    ∀ b ∈ (m'.entry n).lazyBooter, Accounted n m' (T ++ (made ++ rest) :: T').flatten b := by
  have howned := horderly.owned
  have hlive' :
      ∀ b ∈ (m'.entry n).lazyBooter, (view n m (T ++ (used ++ rest) :: T').flatten).Live n →
      (view n m' (T ++ (made ++ rest) :: T').flatten).Live n := fun b hb hl =>
    (hlive hl).resolve_right fun hnone => by cases hnone.symm.trans hb
  have hstay : ∀ x ∈ (T ++ (used ++ rest) :: T').flatten, x ∉ used →
      x ∈ (T ++ (made ++ rest) :: T').flatten := by
    intro x hx hused
    simp only [flatten_append, flatten_cons, mem_append] at hx ⊢
    tauto
  -- a booter that is not touched
  have hsame : ∀ b ∈ (m'.entry n).lazyBooter, b ∈ (m.entry n).lazyBooter →
      m'.booter b = m.booter b → .acquire n (.booting b) ∉ used →
      (∀ text, .acquire n (.bootFailed b text) ∉ used) →
      Accounted n m' (T ++ (made ++ rest) :: T').flatten b := by
    intro b hb hold hbooter hbooting hfailed
    obtain ⟨hbooting', hbooted', hfailed'⟩ := h.booter b hold
    constructor
    · intro hs
      rw [hbooter] at hs
      exact hstay _ (hbooting' hs) hbooting
    · intro hs herr
      rw [hbooter] at hs herr
      exact hlive' b hb (hbooted' hs herr)
    · intro hs herr
      rw [hbooter] at hs herr
      obtain ⟨text, htext⟩ := hfailed' hs herr
      exact ⟨text, hstay _ htext (hfailed text)⟩
  have hself : used ++ rest ∈ T ++ (used ++ rest) :: T' := by simp
  have hmem : ∀ x ∈ used, x ∈ (T ++ (used ++ rest) :: T').flatten := fun x hx =>
    mem_flatten_of_mem hself (mem_append_left _ hx)
  have hmem' : ∀ x ∈ made, x ∈ (T ++ (made ++ rest) :: T').flatten := by
    intro x hx
    simp [hx]
  -- the `Acquire`s that go through the booter of the service are for the service
  have hservice : ∀ {n' : String} {p : AcquirePoint} {b : ℕ},
      .acquire n' p ∈ (T ++ (used ++ rest) :: T').flatten → p.booter = some b →
      b ∈ (m.entry n).lazyBooter → n' = n := fun hin hp hb =>
    (howned.frames _ hin _ hp).2.symm.trans (howned.booter n _ hb).2
  intro b hb
  cases booterTurn_of_turn hturn with
  | kept hm hused hmade =>
    exact hsame b hb (hm.lazyBooter n b hb) (by rw [hm.booter]) (hused n b).1 (hused n b).2
  | @create n' =>
    have hold := hb
    rw [entry_newBooter] at hold
    split_ifs at hold with hn
    · -- the new booter has not set out
      cases hold
      refine ⟨fun hs => ?_, fun hs => ?_, fun hs => ?_⟩ <;>
        · rw [booter_newBooter] at hs
          cases hs
    · have hlt := (howned.booter n b hold).1
      exact hsame b hb hold (booter_newBooter_of_ne hlt.ne) (by simp) (by simp)
  | @fire n' b' =>
    by_cases heq : b = b'
    · subst heq
      have hn : n' = n := hservice (p := .ensure b) (hmem _ mem_cons_self) rfl hb
      subst hn
      refine ⟨fun _ => hmem' _ (by simp), fun hs => ?_, fun hs => ?_⟩ <;>
        · rw [booter_setBooter, if_pos rfl] at hs
          cases hs
    · exact hsame b hb hb (by rw [booter_setBooter, if_neg heq]) (by simp) (by simp)
  | @settle n' b' err p hp =>
    by_cases heq : b = b'
    · subst heq
      have hn : n' = n := hservice (p := .booting b) (hmem _ (by simp)) rfl hb
      subst hn
      refine ⟨fun hs => ?_, fun _ herr => ?_, fun _ herr => ?_⟩
      · rw [booter_setBooter, if_pos rfl] at hs
        cases hs
      · -- the call that has returned vouched for the service
        rw [booter_setBooter, if_pos rfl] at herr
        cases herr
        exact hlive' b hb ((isChain_cons_cons.mp (h.above _ hself)).1 b hb rfl trivial)
      · rw [booter_setBooter, if_pos rfl] at herr
        rcases hp with ⟨rfl, -⟩ | ⟨text, -, rfl⟩
        · exact absurd rfl herr
        · exact ⟨text, hmem' _ (by simp)⟩
    · exact hsame b hb hb (by rw [booter_setBooter, if_neg heq]) (by simp [heq]) (by simp)
  | @clear n' b' text err m' hm hne =>
    refine hsame b hb (hm.lazyBooter n b hb) (by rw [hm.booter]) (by simp) fun text' hin => ?_
    cases mem_singleton.mp hin
    exact hne hb

end Stacks

/-! ### The result -/

def Frame.operates (n : String) : Frame → Bool
  | .start n' _ | .stop n' _ _ | .acquire n' _ => n' = n
  | _ => false

/-- What holds along a run that meets the condition. -/
structure LazyState (n : String) (m : Memory) (T : List (List Frame)) : Prop where
  orderly : Orderly m T
  pending : Pending m T.flatten
  boots : BootInv n (view n m T.flatten)
  inv : LazyInv n m T

theorem committed_call (hc : call m c = some [g]) (h : Committed m (F ++ [g]) op) :
    Committed m F op := by
  refine h.imp_right ?_
  rintro ⟨x, hx, hs⟩
  rcases mem_append.mp hx with hx | hx
  · exact ⟨x, hx, hs⟩
  · rw [mem_singleton.mp hx] at hs
    rcases opening_of_call hc <;> cases hs

theorem LazyState.call {T : List (List Frame)} (h : LazyState n m T) (hc : call m c = some [g]) :
    LazyState n m (T ++ [[g]]) := by
  have hview : view n m (T ++ [[g]]).flatten = view n m T.flatten := by
    rw [flatten_call, view_call hc]
  refine ⟨h.orderly.call hc, ?_, hview ▸ h.boots, ?_, ?_⟩
  · intro n' hs op hop hcommitted
    rw [flatten_call] at hcommitted
    exact h.pending n' hs op hop (committed_call hc hcommitted)
  · refine forall_mem_call (fun st hst => ?_) (isChain_singleton g)
    refine (h.inv.above st hst).imp fun g' f hbacked b hb hf hvouches => ?_
    rw [hview]
    refine hbacked b hb hf ?_
    rw [flatten_call] at hvouches
    exact hvouches.mono fun _ => committed_call hc
  · intro b hb
    obtain ⟨hbooting, hbooted, hfailed⟩ := h.inv.booter b hb
    refine ⟨fun hs => ?_, hview ▸ hbooted, fun hs herr => ?_⟩
    · rw [flatten_call]
      exact mem_append_left _ (hbooting hs)
    · obtain ⟨text, htext⟩ := hfailed hs herr
      rw [flatten_call]
      exact ⟨text, mem_append_left _ htext⟩

theorem LazyState.turn {T T' : List (List Frame)} {rest : List Frame}
    (h : LazyState n m (T ++ (used ++ rest) :: T')) (hturn : Turn M m o used m' made)
    (hD : ∀ f ∈ used.head?, WritesInOrder n (view n m (T ++ (used ++ rest) :: T').flatten) f o) :
    LazyState n m' (T ++ (made ++ rest) :: T') := by
  have howned := h.orderly.owned
  have hpending := h.pending
  have hboots := h.boots
  have hlive := @live_of_turn M m m' o n T.flatten (rest ++ T'.flatten) used made hturn
  rw [← flatten_turn, ← flatten_turn] at hlive
  have hlive := hlive hboots hD
  have hmoved : BootInv n (view n m' (T ++ (made ++ rest) :: T').flatten) := by
    obtain ⟨f, hf, hmove⟩ := move_of_turn hturn (n := n) (A := T.flatten) (B := rest ++ T'.flatten)
    rw [← flatten_turn, ← flatten_turn] at hmove
    exact hboots.move (hD f hf) hmove
  refine ⟨h.orderly.turn hturn, ?_, hmoved, h.inv.above_turn hturn h.orderly hlive hpending,
    h.inv.booter_turn hturn h.orderly hlive⟩
  rw [flatten_turn] at howned hpending ⊢
  exact hpending.turn hturn howned

/-- **The invariant holds** in every state that is reached. -/
theorem lazyState_of_reached (h : Reached M (Seen n (WritesInOrder n)) s) :
    LazyState n s.memory s.threads :=
  meeting_induction h ⟨orderly_initial, fun _ hs => (by cases hs), bootInv_initial, lazyInv_initial⟩
    (fun _ _ _ _ hI => hI.call) fun _ _ _ _ _ _ _ _ hI hC hturn => hI.turn hturn hC

/-- In every run that meets the condition, a booter of a stopped service that nothing is in
progress for has not set out. -/
theorem notStarted_of_stopped (h : Reached M (Seen n (WritesInOrder n)) s)
    (hstopped : (s.memory.entry n).state = .stopped) (hnone : ∀ f ∈ s.frames, f.operates n = false)
    {b : ℕ} (hb : (s.memory.entry n).lazyBooter = some b) :
    (s.memory.booter b).started = .notStarted := by
  have hacc := (lazyState_of_reached h).inv.booter b hb
  cases hs : (s.memory.booter b).started with
  | notStarted => rfl
  | starting => exact absurd (hnone _ (hacc.booting hs)) (by simp [Frame.operates])
  | started =>
    by_cases herr : (s.memory.booter b).err = none
    · rcases hacc.booted hs herr with hrunning | ⟨g, hg, hstops⟩
      · cases hstopped.symm.trans hrunning
      · have hg := hnone g (mem_of_mem_filter hg)
        cases g <;> simp_all [Frame.operates, Frame.stops]
    · obtain ⟨text, htext⟩ := hacc.failed hs herr
      exact absurd (hnone _ htext) (by simp [Frame.operates])

theorem starts_of_notStarted (howned : Owned m F) {spec : ServiceSpec}
    (hspec : M.services.lookup n = some spec) (hlazy : spec.lazyBoot = true)
    (hstopped : (m.entry n).state = .stopped)
    (hbooter : ∀ b, (m.entry n).lazyBooter = some b → (m.booter b).started = .notStarted)
    (o₁ o₂ o₃ o₄ : Option String) : ∃ m' b,
      (system M).runThread [o₁, o₂, o₃, o₄] m [.acquire n .enter]
        = some (m', [.start n (.deps m.nextOp spec.dependencies), .acquire n (.booting b)]) := by
  have henter : (Frame.acquire n .enter).step M m o₁ = some (m, [.acquire n .lazy]) := by
    rw [Frame.step, acquireStep, hspec, Option.elim_some, if_pos hlazy]
  rw [runThread_cons _ (threadStep_of_step henter [])]
  -- from the booter on, with the memory it is found in
  have hfrom : ∀ (m₁ : Memory) (b : ℕ), (m₁.booter b).started = .notStarted →
      (m₁.booter b).service = n → m₁.nextOp = m.nextOp → (m₁.entry n).state = .stopped →
      ∃ m', (system M).runThread [o₃, o₄] m₁ [.acquire n (.ensure b)]
        = some (m', [.start n (.deps m.nextOp spec.dependencies), .acquire n (.booting b)]) := by
    intro m₁ b hs hservice hnext hstate
    have hensure : (Frame.acquire n (.ensure b)).step M m₁ o₃ = some
        (m₁.setBooter b { m₁.booter b with started := .starting },
          [.start n .enter, .acquire n (.booting b)]) := by
      simp only [Frame.step, acquireStep, hs, hservice]
    rw [runThread_cons _ (threadStep_of_step hensure [])]
    have hlead : ∀ m₂ : Memory, m₂.nextOp = m.nextOp → (m₂.entry n).state = .stopped →
        (Frame.start n .enter).step M m₂ o₄ = some (m₂.lead n,
          [.start n (.deps m.nextOp spec.dependencies)]) := by
      intro m₂ hnext hstate
      simp only [Frame.step, startStep, hspec, hstate, Option.elim_some, hnext]
    have hboot := hlead (m₁.setBooter b { m₁.booter b with started := .starting }) hnext hstate
    exact ⟨_, runThread_cons [] (threadStep_of_step hboot [.acquire n (.booting b)])⟩
  cases hb : (m.entry n).lazyBooter with
  | none =>
    have hmake : (Frame.acquire n .lazy).step M m o₂
        = some (m.newBooter n, [.acquire n (.ensure m.nextBooter)]) := by
      rw [Frame.step, acquireStep, hb, Option.elim_none]
    rw [runThread_cons _ (threadStep_of_step hmake [])]
    obtain ⟨m', hm'⟩ := hfrom (m.newBooter n) m.nextBooter (by rw [booter_newBooter])
      (by rw [booter_newBooter]) rfl (by rw [entry_newBooter, if_pos rfl]; exact hstopped)
    exact ⟨m', _, hm'⟩
  | some b =>
    have htake : (Frame.acquire n .lazy).step M m o₂ = some (m, [.acquire n (.ensure b)]) := by
      rw [Frame.step, acquireStep, hb, Option.elim_some]
    rw [runThread_cons _ (threadStep_of_step htake [])]
    obtain ⟨m', hm'⟩ := hfrom m b (hbooter b hb) (howned.booter n b hb).2 rfl hstopped
    exact ⟨m', b, hm'⟩

/-- **A stopped lazy service can be revived**, in every run in which a boot that fails writes this
only while it is the latest, and a `Stop` whose `Down` has failed only when the latest is over:
with nothing in progress for it, its booter is gone or has not set out, and the next `Acquire`
leads a new boot. -/
theorem revivable_of_stopped (M : DefaultManager) (n : String) (s : State)
    (h : Reached M (Seen n (WritesInOrder n)) s) (hstopped : (s.memory.entry n).state = .stopped)
    (hnone : ∀ f ∈ s.frames, f.operates n = false) :
    (∀ b, (s.memory.entry n).lazyBooter = some b → (s.memory.booter b).started = .notStarted) ∧
      ∀ spec, M.services.lookup n = some spec → spec.lazyBoot = true → ∀ o₁ o₂ o₃ o₄, ∃ m' b,
        (system M).runThread [o₁, o₂, o₃, o₄] s.memory [.acquire n .enter] = some (m',
          [.start n (.deps s.memory.nextOp spec.dependencies), .acquire n (.booting b)]) := by
  have hbooter : ∀ b, (s.memory.entry n).lazyBooter = some b →
      (s.memory.booter b).started = .notStarted := fun b hb =>
    notStarted_of_stopped h hstopped hnone hb
  refine ⟨hbooter, fun spec hspec hlazy => ?_⟩
  exact starts_of_notStarted (orderly_of_reached h).owned hspec hlazy hstopped hbooter

/-- A cache that the first `Acquire` starts. -/
def cache : ServiceSpec := { name := "cache", lazyBoot := true, composeFile := "cache.yml" }

/-- The cache is acquired, a `Stop` of it fails, and another succeeds: the next `Acquire` leads a
new boot. -/
theorem revivable_of_stopped_cache :
    ∃ s, Reached (oneService cache) (Seen "cache" (WritesInOrder "cache")) s ∧
      (s.memory.entry "cache").state = .stopped ∧ (s.memory.booter 0).started = .started ∧
      ∃ m' b, (system (oneService cache)).runThread [none, none, none, none] s.memory
        [.acquire "cache" .enter] = some (m', [.start "cache" (.deps s.memory.nextOp []),
          .acquire "cache" (.booting b)]) := by
  obtain ⟨s, hs, hstopped, hfired, hnone⟩ : ∃ s,
      Reached (oneService cache) (Seen "cache" (WritesInOrder "cache")) s ∧
      (s.memory.entry "cache").state = .stopped ∧ (s.memory.booter 0).started = .started ∧
      ∀ f ∈ s.frames, f.operates "cache" = false :=
    Reach.exists_of_runMeeting
      (.call (.acquire "cache") :: steps 0 19 ++ .call (.stop "cache") :: steps 1 3 ++
        .step 1 (some "daemon busy") :: steps 1 2 ++ .call (.stop "cache") :: steps 2 6)
      (by decide +kernel)
  exact ⟨s, hs, hstopped, hfired, (revivable_of_stopped (oneService cache) "cache" s hs hstopped
    hnone).2 cache rfl rfl none none none none⟩

/-- **A stopped lazy service can be past reviving.** The `Down` of a `Stop` fails while a later
boot is under way, which then takes itself for cancelled. Or a boot that a `Stop` has cancelled
fails when a later one has made the service `running`. Either way nothing is in progress, the
service is `stopped`, and its booter has fired: the next `Acquire` starts nothing, and is told
that the service is not running. -/
theorem stopped_with_fired_booter :
    (∃ s, Reached (oneService cache) Anyhow s ∧ (s.memory.entry "cache").state = .stopped ∧
      (∀ f ∈ s.frames, f.operates "cache" = false) ∧
      (s.memory.entry "cache").lazyBooter = some 0 ∧ (s.memory.booter 0).started = .started ∧
      ((system (oneService cache)).runThread [none, none, none, none] s.memory
        [.acquire "cache" .enter]).map Prod.snd =
          some [.ret (some "lifecycle: service \"cache\" is not running")]) ∧
    ∃ s, Reached (oneService cache) Anyhow s ∧ (s.memory.entry "cache").state = .stopped ∧
      (∀ f ∈ s.frames, f.operates "cache" = false) ∧
      (s.memory.entry "cache").lazyBooter = some 0 ∧ (s.memory.booter 0).started = .started := by
  constructor
  · exact Reach.exists_of_runMeeting
      (.call (.acquire "cache") :: steps 0 19 ++ .call (.stop "cache") :: steps 1 3 ++
        .call (.start "cache") :: steps 2 5 ++ .step 1 (some "daemon busy") :: steps 1 2 ++
        steps 2 3) (by decide +kernel)
  · exact Reach.exists_of_runMeeting
      (.call (.start "cache") :: steps 0 2 ++ .call (.stop "cache") :: steps 1 6 ++
        .call (.acquire "cache") :: steps 2 19 ++ .step 0 (some "no space") :: steps 0 3)
      (by decide +kernel)

end Containers.Lifecycle
