import Containers.Lifecycle.Lazy

/-!
# Starts that follow one another

A `Start` that finds a boot under way waits for it, and returns what its leader publishes. The
leader writes `starting` and hands out a handle in one section, boots the service with the lock
released, writes the outcome to the state in another section, and publishes it through the handle
last.

Three facts make this sound. A handle is led by one call, and what is published stays (`Led`,
`Published`): so whoever waits for it is told this outcome and no other. A boot that is under way
has not come out well, so where a call that follows it is told that it has, the service became
`running` after the call began (`exists_running`). And a boot is led only when the service is
`stopped` or `stopping`, so without a `Stop` there is one boot at a time that has not written its
outcome (`OneBoot`).

It is not so of the publishing: a leader whose boot has failed writes `stopped` before it publishes
this, and in between another `Start` may lead the next boot (`unpublished_overtaken`).
-/

namespace Containers.Lifecycle

open List

variable {s s' : State} {op i : ℕ} {err : Option String} {f : Frame} {rest : List Frame} {c : Call}
  {M : DefaultManager} {m m' : Memory} {o : Option String} {n : String}
  {A B used made F : List Frame} {run : List State} {s₀ : State}

/-! ### Who leads a boot -/

/-- The boot that a `Start` leads, until it has published the outcome. -/
def StartPoint.led : StartPoint → Option ℕ
  | .enter | .wait _ => none
  | .deps op _ | .awaitDep op _ _ | .up op | .check op | .health op _ | .fail op _ => some op
  | .commit op | .monitor op | .arm op _ | .finish op _ => some op

def Frame.led : Frame → Option ℕ
  | .start _ p => p.led
  | _ => none

/-- **The boots that are led.** -/
def leads (F : List Frame) : List ℕ := F.filterMap Frame.led

theorem leads_of_some (h : f.led = some op) :
    (leads (A ++ ([f] ++ B))).Perm (op :: leads (A ++ B)) := Loops.perm_filterMap_middle h

theorem leads_of_none (h : f.led = none) : leads (A ++ ([f] ++ B)) = leads (A ++ B) :=
  Loops.filterMap_middle h

theorem leads_congr (h : leads made = leads used) :
    leads (A ++ (made ++ B)) = leads (A ++ (used ++ B)) := by
  simp only [leads, filterMap_append] at h ⊢
  rw [h]

/-- **What a step can do to the boots that are led.** -/
inductive LedTurn (m : Memory) : List Frame → Memory → List Frame → Prop
  | kept {used made : List Frame} {m' : Memory} (hops : m'.startOp = m.startOp)
      (hnext : m'.nextOp = m.nextOp) (hled : leads made = leads used) : LedTurn m used m' made
  | lead {n : String} {deps : List String} :
      LedTurn m [.start n .enter] (m.lead n) [.start n (.deps m.nextOp deps)]
  | finish {n : String} {op : ℕ} {err : Option String} :
      LedTurn m [.start n (.finish op err)] (m.settle op err) [.ret err]

theorem ledTurn_of_turn (hturn : Turn M m o used m' made) : LedTurn m used m' made := by
  cases turnStep_of_turn hturn with
  | start h =>
    cases startStep_cases h with
    | lead => exact .lead
    | check => refine .kept ?_ ?_ rfl <;> split_ifs <;> rfl
    | _ => exact .kept rfl rfl rfl
  | startRet h =>
    cases startStep_cases h with
    | finish => exact .finish
    | _ => exact .kept rfl rfl rfl
  | stop h | stopRet h =>
    obtain ⟨hunled, hops⟩ := unled_of_stopStep h
    exact .kept hops hunled.nextOp rfl
  | acquire h | acquireCall h | acquireRet h =>
    have hm := (beside_of_acquireStep h).1
    exact .kept hm.ops hm.nextOp rfl
  | release _ h | releaseRet _ h =>
    have hm := (beside_of_releaseStep h).1
    exact .kept hm.ops hm.nextOp rfl
  | fire _ h | fireRet _ h =>
    have hm := (keeps_of_fireStep h).2.1
    exact .kept hm.ops hm.nextOp rfl
  | depRet hp =>
    refine .kept rfl rfl ?_
    rcases hp with ⟨-, rfl⟩ | ⟨text, rfl⟩ <;> rfl
  | startCall | shutdown | shutdownRet | bootRet | nextStop | leave => exact .kept rfl rfl rfl

/-- **A boot is led by one call**, and its handle has been given out. -/
structure Led (m : Memory) (F : List Frame) : Prop where
  fresh : ∀ op ∈ leads F, op < m.nextOp
  nodup : (leads F).Nodup

theorem Led.turn (h : Led m (A ++ (used ++ B))) (hturn : LedTurn m used m' made) :
    Led m' (A ++ (made ++ B)) := by
  cases hturn with
  | kept hops hnext hled =>
    refine ⟨?_, ?_⟩ <;> rw [leads_congr hled]
    · rw [hnext]
      exact h.fresh
    · exact h.nodup
  | @lead n deps =>
    have hperm := leads_of_some (A := A) (B := B) (f := .start n (.deps m.nextOp deps)) rfl
    have hfresh := h.fresh
    rw [leads_of_none rfl] at hfresh
    refine ⟨fun op hop => ?_, hperm.nodup_iff.mpr (nodup_cons.mpr ⟨fun hop => ?_, ?_⟩)⟩
    · rcases mem_cons.mp (hperm.mem_iff.mp hop) with rfl | hop
      · exact Nat.lt_succ_self _
      · exact (hfresh op hop).trans (Nat.lt_succ_self _)
    · exact lt_irrefl _ (hfresh _ hop)
    · rw [← leads_of_none (f := .start n .enter) rfl]
      exact h.nodup
  | @finish n op err =>
    have hperm := leads_of_some (A := A) (B := B) (f := .start n (.finish op err)) rfl
    refine ⟨fun op' hop' => ?_, ?_⟩
    · rw [leads_of_none rfl] at hop'
      exact h.fresh op' (hperm.mem_iff.mpr (mem_cons_of_mem _ hop'))
    · rw [leads_of_none rfl]
      exact (nodup_cons.mp (hperm.nodup_iff.mp h.nodup)).2

theorem led_call (hc : call m c = some [f]) : f.led = none := by
  rcases opening_of_call hc <;> rfl

theorem led_of_reached {C : Condition} (h : Reached M C s) : Led s.memory s.frames := by
  refine frames_induction h ⟨forall_mem_nil _, nodup_nil⟩ ?_ ?_
  · intro m F c f hI hc
    have hleads : leads (F ++ [f]) = leads F := by
      simp [leads, led_call hc]
    exact ⟨hleads ▸ hI.fresh, hleads ▸ hI.nodup⟩
  · exact fun _ _ _ _ _ _ _ hI _ hturn => hI.turn (ledTurn_of_turn hturn)

/-! ### What is published stays -/

/-- **The boot is over**: its outcome is published, and nobody leads it. -/
structure Published (op : ℕ) (err : Option String) (m : Memory) (F : List Frame) : Prop where
  done : (m.startOp op).done = true
  err : (m.startOp op).err = err
  old : op < m.nextOp
  unled : op ∉ leads F

theorem Published.turn (h : Published op err m (A ++ (used ++ B)))
    (hturn : LedTurn m used m' made) : Published op err m' (A ++ (made ++ B)) := by
  cases hturn with
  | kept hops hnext hled =>
    refine ⟨?_, ?_, ?_, ?_⟩
    · rw [hops, h.done]
    · rw [hops, h.err]
    · rw [hnext]
      exact h.old
    · rw [leads_congr hled]
      exact h.unled
  | @lead n deps =>
    have hsame : (m.lead n).startOp op = m.startOp op := by
      rw [startOp_lead, Function.update_of_ne h.old.ne]
    refine ⟨?_, ?_, h.old.trans (Nat.lt_succ_self _), fun hop => ?_⟩
    · rw [hsame, h.done]
    · rw [hsame, h.err]
    · rcases mem_cons.mp ((leads_of_some rfl).mem_iff.mp hop) with rfl | hop
      · exact lt_irrefl _ h.old
      · exact h.unled (by rwa [leads_of_none rfl])
  | @finish n op' err' =>
    have hperm := leads_of_some (A := A) (B := B) (f := .start n (.finish op' err')) rfl
    have hne : op ≠ op' := by
      rintro rfl
      exact h.unled (hperm.mem_iff.mpr mem_cons_self)
    have hsame : (m.settle op' err').startOp op = m.startOp op := by
      rw [startOp_settle, if_neg hne]
    refine ⟨?_, ?_, h.old, fun hop => ?_⟩
    · rw [hsame, h.done]
    · rw [hsame, h.err]
    · rw [leads_of_none rfl] at hop
      exact h.unled (hperm.mem_iff.mpr (mem_cons_of_mem _ hop))

theorem published_of_finish (h : Led m (A ++ ([Frame.start n (.finish op err)] ++ B))) :
    Published op err (m.settle op err) (A ++ ([Frame.ret err] ++ B)) := by
  have hperm := leads_of_some (A := A) (B := B) (f := .start n (.finish op err)) rfl
  refine ⟨?_, ?_, h.fresh op (hperm.mem_iff.mpr mem_cons_self), ?_⟩
  · rw [startOp_settle, if_pos rfl]
  · rw [startOp_settle, if_pos rfl]
  · rw [leads_of_none rfl]
    exact (nodup_cons.mp (hperm.nodup_iff.mp h.nodup)).1

/-! ### Runs -/

theorem meeting_anyhow {a : Action} : Meeting Anyhow s a := by
  cases a with
  | call => trivial
  | step => exact fun _ _ => trivial

theorem next_start {p : StartPoint} (hst : s.threads[i]? = some (.start n p :: rest)) :
    (system M).next s (.step i o) = (startStep M s.memory o n p).map fun r =>
      ⟨r.1, s.threads.set i (r.2 ++ rest)⟩ := by
  rw [ThreadSystem.next, hst]
  change Option.map _ (Option.map _ (startStep M s.memory o n p)) = _
  rw [Option.map_map]
  rfl

theorem mem_frames (hst : s.threads[i]? = some (f :: rest)) : f ∈ s.frames :=
  mem_flatten_of_mem (mem_of_getElem? hst) mem_cons_self

theorem ownsOp_of_reach (h : s.memory.OwnsOp n op) (hs : (system M).Reach (Meeting Anyhow) s s') :
    s'.memory.OwnsOp n op :=
  frames_induction hs (I := fun m _ => m.OwnsOp n op) h (fun _ _ _ _ hI _ => hI)
    fun _ _ _ _ _ _ _ hI _ hturn => (grows_of_turn hturn).ownsOp n op hI

/-- **The call that leads a boot publishes its outcome**, and returns it. -/
def Publishes (M : DefaultManager) (n : String) (op : ℕ) (err : Option String) (s s' : State) :
    Prop :=
  ∃ i o rest, s.threads[i]? = some (.start n (.finish op err) :: rest) ∧
    (system M).next s (.step i o) = some s' ∧ s'.threads[i]? = some (.ret err :: rest)

theorem Publishes.published (h : Publishes M n op err s s') (hs : Reached M Anyhow s) :
    Published op err s'.memory s'.frames := by
  obtain ⟨i, o, rest, hst, hnext, -⟩ := h
  obtain ⟨pre, st, post, m', st', hT, rfl, hstep, rfl⟩ := ThreadSystem.next_step hnext
  rw [hT, getElem?_append_right le_rfl, Nat.sub_self] at hst
  cases hst
  cases hstep
  have hled : Led s.memory (pre ++ ([Frame.start n (.finish op err)] ++ rest) :: post).flatten :=
    hT ▸ led_of_reached hs
  rw [flatten_turn] at hled
  rw [ThreadSystem.State.frames, flatten_turn]
  exact published_of_finish hled

theorem Published.of_reach (h : Published op err s.memory s.frames)
    (hs : (system M).Reach (Meeting Anyhow) s s') : Published op err s'.memory s'.frames := by
  refine frames_induction hs h ?_ ?_
  · intro m F c f hI hc
    refine ⟨hI.done, hI.err, hI.old, ?_⟩
    simpa [leads, led_call hc] using hI.unled
  · exact fun _ _ _ _ _ _ _ hI _ hturn => hI.turn (ledTurn_of_turn hturn)

/-- **Nobody else publishes**: until its leader has, a boot is not over. -/
theorem not_done_of_reach
    (h : (system M).Reach (fun x a => ∀ y n err, (system M).next x a = some y →
      ¬Publishes M n op err x y) initial s) : (s.memory.startOp op).done = false := by
  refine reach_induction (I := fun m _ => (m.startOp op).done = false) (by rfl) ?_ ?_ h
  · exact fun _ _ _ _ hI _ _ => hI
  · intro m T T' used rest o m' made hI hK hturn
    cases ledTurn_of_turn hturn with
    | kept hops => rw [hops, hI]
    | lead =>
      rw [startOp_lead, Function.update_apply]
      split_ifs
      · rfl
      · exact hI
    | @finish n op' err =>
      rw [startOp_settle]
      split_ifs with hop
      · subst hop
        have hnext : (system M).next ⟨m, T ++ ([Frame.start n (.finish op err)] ++ rest) :: T'⟩
            (.step T.length o) = some ⟨m.settle op err, T ++ ([Frame.ret err] ++ rest) :: T'⟩ :=
          ThreadSystem.next_step_of rfl
        refine absurd ⟨T.length, o, rest, ?_, hnext, ?_⟩ (hK _ n err hnext) <;> simp
      · exact hI

/-- **A call that follows a boot returns what its leader has published.** -/
theorem follower_returns (hrun : (system M).Run (initial :: run))
    (hlast : (initial :: run).getLast? = some s)
    (hst : s.threads[i]? = some (.start n (.wait op) :: rest))
    (hnext : (system M).next s (.step i o) = some s') :
    ∃ err, s'.threads[i]? = some (.ret err :: rest) ∧
      (∃ x y, [x, y] <:+: initial :: run ∧ Publishes M n op err x y) ∧
      ∀ x y n' err', [x, y] <:+: initial :: run → Publishes M n' op err' x y →
        n' = n ∧ err' = err := by
  have hs : Reached M Anyhow s := hrun.reach (fun _ _ _ _ _ => meeting_anyhow) hlast
  -- the step is made when the boot is over
  have hdone : (s.memory.startOp op).done = true ∧
      s'.threads[i]? = some (.ret (s.memory.startOp op).err :: rest) := by
    rw [next_start hst, startStep] at hnext
    by_cases hdone : (s.memory.startOp op).done = true
    · rw [if_pos hdone] at hnext
      cases hnext
      exact ⟨hdone, getElem?_set_self (List.getElem?_eq_some_iff.mp hst).1⟩
    · rw [if_neg hdone] at hnext
      cases hnext
  -- all who publish the outcome publish this one
  have honly : ∀ x y n' err', [x, y] <:+: initial :: run → Publishes M n' op err' x y →
      n' = n ∧ err' = (s.memory.startOp op).err := by
    intro x y n' err' hxy hpublishes
    obtain ⟨hx, hy⟩ := hrun.split (fun _ _ => meeting_anyhow) hxy hlast
    refine ⟨?_, ((hpublishes.published hx).of_reach hy).err.symm⟩
    obtain ⟨j, o', rest', hstx, hnextx, -⟩ := hpublishes
    have hleads : x.memory.OwnsOp n' op :=
      (orderly_of_reached hx).owned.frames _ (mem_frames hstx) op rfl
    have hfollows : s.memory.OwnsOp n op :=
      (orderly_of_reached hs).owned.frames _ (mem_frames hst) op rfl
    have hkept : s.memory.OwnsOp n' op :=
      ownsOp_of_reach hleads ((ThreadSystem.Reach.start.next meeting_anyhow hnextx).trans hy)
    exact hkept.2.symm.trans hfollows.2
  refine ⟨_, hdone.2, ?_, honly⟩
  by_contra hnone
  push Not at hnone
  have hnot : (s.memory.startOp op).done = false := not_done_of_reach (hrun.reach ?_ hlast)
  · cases hnot.symm.trans hdone.1
  · intro x y a hxy hnext' y' n' err' hnext'' hpublishes
    cases hnext'.symm.trans hnext''
    obtain ⟨rfl, rfl⟩ := honly x y n' err' hxy hpublishes
    exact hnone x y hxy hpublishes

/-! ### What a call returns -/

/-- The pointers are good, and a boot under way has not come out well. -/
structure Tracked (m : Memory) (F : List Frame) : Prop where
  owned : Owned m F
  pending : Pending m F

theorem Tracked.call (h : Tracked m F) (hc : call m c = some [f]) : Tracked m (F ++ [f]) :=
  ⟨h.owned.call hc, fun n hs op hop hcommitted =>
    h.pending n hs op hop (committed_call hc hcommitted)⟩

theorem Tracked.turn (h : Tracked m (A ++ (used ++ B))) (hturn : Turn M m o used m' made) :
    Tracked m' (A ++ (made ++ B)) :=
  ⟨h.owned.turn hturn, h.pending.turn hturn h.owned⟩

theorem tracked_of_reached (h : Reached M Anyhow s) : Tracked s.memory s.frames :=
  frames_induction h ⟨owned_initial, fun _ hs => by cases hs⟩ (fun _ _ _ _ hI => hI.call)
    fun _ _ _ _ _ _ _ hI _ => hI.turn

/-- The call that the thread has made above `rest` is not over. -/
def InCall (i : ℕ) (rest : List Frame) (s : State) : Prop :=
  ∃ top f, s.threads[i]? = some (top ++ f :: rest)

/-- A `Start` of the service that does not vouch for it. -/
def Frame.Unvouched (n : String) (m : Memory) (F : List Frame) (f : Frame) : Prop :=
  f.OfStart n ∧ ¬f.Vouches m F

section Turn

variable {f : Frame} {rest rest' : List Frame} {T T' : List (List Frame)}

theorem Frame.Unvouched.keep (h : f.Unvouched n m (A ++ (used ++ B)))
    (hturn : Turn M m o used m' made) (howned : Lifecycle.Owned m (A ++ (used ++ B)))
    (hf : f ∈ A ++ (used ++ B)) (hafter : (m'.entry n).state ≠ .running) :
    f.Unvouched n m' (A ++ (made ++ B)) := by
  refine ⟨h.1, fun hvouches => ?_⟩
  rcases vouches_before hturn howned hf h.1 hvouches with hbefore | hrunning
  · exact h.2 hbefore
  · exact hafter hrunning

theorem Frame.Unvouched.turn {g : Frame} (h : f.Unvouched n m (A ++ (used ++ B)))
    (hturn : Turn M m o used m' made) (htracked : Tracked m (A ++ (used ++ B)))
    (hf : used.getLast? = some f) (hg : made.getLast? = some g)
    (hbefore : (m.entry n).state ≠ .running) (hafter : (m'.entry n).state ≠ .running) :
    g.Unvouched n m' (A ++ (made ++ B)) := by
  refine ⟨h.1.turn hturn hf hg, fun hvouches => ?_⟩
  rcases vouches_of_turn hturn htracked.owned htracked.pending hf hg h.1 hvouches with
    hvouched | hrunning | hrunning
  · exact h.2 hvouched
  · exact hbefore hrunning
  · exact hafter hrunning

theorem short_of_turn (hturn : Turn M m o used m' made) : used.length = 1 ∨ made.length = 1 := by
  cases turnStep_of_turn hturn with
  | depRet | bootRet | nextStop => exact .inr rfl
  | _ => exact .inl rfl

/-- **Where the call is after a step of its thread**: where it was, or where the step has brought
it; or it is over. -/
theorem call_of_turn (hturn : Turn M m o used m' made) {top top' : List Frame} {f' : Frame}
    (hst : used ++ rest' = top ++ f :: rest) (hst' : made ++ rest' = top' ++ f' :: rest) :
    f' = f ∧ f ∈ rest' ∨ used.getLast? = some f ∧ made.getLast? = some f' := by
  have hlen := congrArg length hst
  have hlen' := congrArg length hst'
  rcases append_eq_append_iff.mp hst with ⟨l, rfl, rfl⟩ | ⟨l, rfl, hl⟩
  · rw [← append_assoc] at hst'
    obtain ⟨-, heq⟩ := append_inj' hst' rfl
    cases heq
    exact .inl ⟨rfl, by simp⟩
  · rcases l with _ | ⟨g, l⟩
    · cases hl
      obtain ⟨-, heq⟩ := append_inj' hst' rfl
      cases heq
      exact .inl ⟨rfl, by simp⟩
    · rw [cons_append] at hl
      obtain ⟨rfl, rfl⟩ := cons.inj hl
      rcases l with _ | ⟨g, l⟩
      · rw [append_cons] at hst'
        cases append_cancel_right hst'
        exact .inr ⟨by simp, by simp⟩
      · -- the call has returned
        have hshort := short_of_turn hturn
        simp only [length_append, length_cons] at hshort hlen hlen'
        omega

def Unvouched (n : String) (i : ℕ) (rest : List Frame) (m : Memory) (T : List (List Frame)) :
    Prop :=
  ∀ top f, T[i]? = some (top ++ f :: rest) → f.Unvouched n m T.flatten

theorem Unvouched.turn (h : Unvouched n i rest m (T ++ (used ++ rest') :: T'))
    (hin : InCall i rest ⟨m, T ++ (used ++ rest') :: T'⟩)
    (htracked : Tracked m (T ++ (used ++ rest') :: T').flatten)
    (hbefore : (m.entry n).state ≠ .running) (hafter : (m'.entry n).state ≠ .running)
    (hturn : Turn M m o used m' made) : Unvouched n i rest m' (T ++ (made ++ rest') :: T') := by
  obtain ⟨top, f, hst⟩ := hin
  have hcall := h top f hst
  intro top' f' hst'
  rw [flatten_turn] at htracked hcall ⊢
  have hkeep : f ∈ T.flatten ++ (used ++ (rest' ++ T'.flatten)) →
      f.Unvouched n m' (T.flatten ++ (made ++ (rest' ++ T'.flatten))) := fun hf =>
    hcall.keep hturn htracked.owned hf hafter
  by_cases hi : i = T.length
  · subst hi
    rw [getElem?_append_right le_rfl, Nat.sub_self, getElem?_cons_zero,
      Option.some_inj] at hst hst'
    rcases call_of_turn hturn hst hst' with ⟨rfl, hf⟩ | ⟨hf, hf'⟩
    · exact hkeep (by simp [hf])
    · exact hcall.turn hturn htracked hf hf' hbefore hafter
  · -- another thread makes the step
    have hset : T ++ (made ++ rest') :: T' =
        (T ++ (used ++ rest') :: T').set T.length (made ++ rest') := by simp
    rw [hset, getElem?_set_ne (Ne.symm hi), hst, Option.some_inj] at hst'
    obtain ⟨-, heq⟩ := append_inj' hst' rfl
    cases heq
    refine hkeep ?_
    rw [← flatten_turn]
    exact mem_flatten_of_mem (mem_of_getElem? hst) (by simp)

theorem Unvouched.call (h : Unvouched n i rest m T) (hin : InCall i rest ⟨m, T⟩)
    (hc : call m c = some [f]) : Unvouched n i rest m (T ++ [[f]]) := by
  obtain ⟨top, g, hst⟩ := hin
  intro top' g' hst'
  rw [getElem?_append_left (List.getElem?_eq_some_iff.mp hst).1] at hst'
  obtain ⟨hstart, hvouches⟩ := h top' g' hst'
  refine ⟨hstart, fun hv => hvouches ?_⟩
  rw [flatten_call] at hv
  exact hv.mono fun _ => committed_call hc

end Turn

/-- **A call of `Start` returns without an error only if the service was `running`** in some
state on the way. -/
theorem exists_running (hs₀ : Reached M Anyhow s₀) (hrun : (system M).Run (s₀ :: run))
    (hlast : (s₀ :: run).getLast? = some s) (hst₀ : s₀.threads[i]? = some (.start n .enter :: rest))
    (hin : ∀ x ∈ s₀ :: run, InCall i rest x) (hst : s.threads[i]? = some (.ret none :: rest)) :
    ∃ x ∈ s₀ :: run, (x.memory.entry n).state = .running := by
  by_contra hnever
  push Not at hnever
  have hreach : (system M).Reach
      (fun x _ => InCall i rest x ∧ (x.memory.entry n).state ≠ .running) s₀ s := by
    refine hrun.reach (fun x y a hxy _ => ?_) hlast
    have hx : x ∈ s₀ :: run := hxy.subset mem_cons_self
    exact ⟨hin x hx, hnever x hx⟩
  have hinv : Tracked s.memory s.frames ∧
      ((s.memory.entry n).state ≠ .running → Unvouched n i rest s.memory s.threads) := by
    refine reach_induction (I := fun m T => Tracked m T.flatten ∧
      ((m.entry n).state ≠ .running → Unvouched n i rest m T)) ?_ ?_ ?_ hreach
    · refine ⟨tracked_of_reached hs₀, fun _ top f hst => ?_⟩
      -- the call has just been made
      rw [hst₀, Option.some_inj, ← nil_append (Frame.start n .enter :: rest)] at hst
      obtain ⟨-, heq⟩ := append_inj' hst rfl
      cases heq
      exact ⟨.inl ⟨_, rfl⟩, id⟩
    · rintro m T c f ⟨htracked, hcall⟩ ⟨hinm, hm⟩ hc
      refine ⟨?_, fun _ => (hcall hm).call hinm hc⟩
      rw [flatten_call]
      exact htracked.call hc
    · rintro m T T' used rest' o m' made ⟨htracked, hcall⟩ ⟨hinm, hm⟩ hturn
      refine ⟨?_, fun hm' => (hcall hm).turn hinm htracked hm hm' hturn⟩
      rw [flatten_turn] at htracked ⊢
      exact htracked.turn hturn
  have hmem : s ∈ s₀ :: run := mem_of_getLast? hlast
  exact (hinv.2 (hnever s hmem) [] _ hst).2 trivial

/-! ### One boot at a time -/

/-- A step of a `Stop` of the service. -/
def Frame.isStop (n : String) : Frame → Bool
  | .stop n' _ _ => n' = n
  | _ => false

/-- **No `Stop` intervenes.** -/
abbrev Unstopped (n : String) : Condition := fun _ _ f _ => f.isStop n = false

/-- There is one boot, the latest, while the service is `starting`, and none otherwise. -/
def OneBoot (n : String) (v : View) : Prop :=
  bootsOf n v.flight = [] ∨
    ∃ op, bootsOf n v.flight = [op] ∧ v.state = .starting ∧ v.startOp = some op

theorem OneBoot.move {v v' : View} (hv : OneBoot n v) (hf : f.isStop n = false)
    (h : Move M n v f o v') : OneBoot n v' := by
  -- a boot writes its outcome, and there was no other
  have hremove : ∀ {A B : List Frame} {p : StartPoint}, p.boots = true →
      v.flight = A ++ Frame.start n p :: B → bootsOf n (A ++ B) = [] := by
    intro A B p hp hflight
    have hperm := bootsOf_of_some (A := A) (B := B) (bootOf_start (n := n) hp)
    rw [← hflight] at hperm
    rcases hv with hnone | ⟨op, hone, -, -⟩
    · rw [hnone] at hperm
      exact absurd hperm.length_eq (by simp)
    · rw [hone] at hperm
      simpa using hperm.length_eq.symm
  cases h with
  | quiet | fresh => exact hv
  | lead hf hstate hflight =>
    rcases hv with hnone | ⟨op, -, hstarting, -⟩
    · refine .inr ⟨v.nextOp, perm_singleton.mp ?_, rfl, rfl⟩
      refine (bootsOf_of_some (bootOf_start rfl)).trans ?_
      rw [← hflight, hnone]
      exact .refl _
    · rw [hstarting] at hstate
      rcases hstate with h | h <;> cases h
  | @advance A B p p' done hf hflight hadvance =>
    have hperm := hadvance.bootsOf_perm (A := A) (B := B)
    rw [← hflight] at hperm
    rcases hv with hnone | ⟨op, hone, hstarting, hop⟩
    · exact .inl (perm_nil.mp (hnone ▸ hperm))
    · exact .inr ⟨op, perm_singleton.mp (hone ▸ hperm), hstarting, hop⟩
  | fail hf hflight => exact .inl (hremove rfl hflight)
  | commit hflight => exact .inl (hremove rfl hflight)
  | stop hf' | proceed hf' | write hf' =>
    rw [hf'] at hf
    simp [Frame.isStop] at hf

theorem bootsOf_flight : bootsOf n (view n m F).flight = bootsOf n F := by
  rw [bootsOf, view, filterMap_filter]
  refine filterMap_congr fun f _ => ?_
  cases f with
  | start n' p =>
    by_cases hp : n' = n ∧ p.boots = true
    · simp [Frame.boots, hp]
    · simp [Frame.bootOf, hp]
  | stop | acquire | release | fire | shutdown | ret => exact ite_self _

theorem oneBoot_of_reach (h₀ : bootsOf n s₀.frames = [])
    (h : (system M).Reach (Meeting (Unstopped n)) s₀ s) : OneBoot n (view n s.memory s.frames) := by
  refine frames_induction h (I := fun m F => OneBoot n (view n m F)) ?_ ?_ ?_
  · exact .inl (bootsOf_flight.trans h₀)
  · intro m F c f hI hc
    rwa [view_call hc]
  · intro m A B used o m' made hI hC hturn
    obtain ⟨f, hf, hmove⟩ := move_of_turn hturn
    exact hI.move (hC f hf) hmove

/-- **Concurrent `Start`s coalesce**, in every interleaving and whatever else is called. A call that
has waited for a boot returns what the call that leads this boot has published, which is one
outcome. A call returns without an error only if the service was `running` in some state between
its beginning and its return. And where no boot of the service is in flight, there is at most one
from then on that has not written its outcome, as long as no `Stop` of it makes a step. -/
theorem starts_coalesce (M : DefaultManager) (n : String) :
    (∀ run s s' i o op rest, (system M).Run (initial :: run) →
      (initial :: run).getLast? = some s →
      s.threads[i]? = some (.start n (.wait op) :: rest) →
      (system M).next s (.step i o) = some s' →
      ∃ err, s'.threads[i]? = some (.ret err :: rest) ∧
        (∃ x y, [x, y] <:+: initial :: run ∧ Publishes M n op err x y) ∧
        ∀ x y n' err', [x, y] <:+: initial :: run → Publishes M n' op err' x y →
          n' = n ∧ err' = err) ∧
    (∀ run s₀ s i rest, Reached M Anyhow s₀ → (system M).Run (s₀ :: run) →
      (s₀ :: run).getLast? = some s → s₀.threads[i]? = some (.start n .enter :: rest) →
      (∀ x ∈ s₀ :: run, InCall i rest x) → s.threads[i]? = some (.ret none :: rest) →
      ∃ x ∈ s₀ :: run, (x.memory.entry n).state = .running) ∧
    ∀ s₀ s, bootsOf n s₀.frames = [] → (system M).Reach (Meeting (Unstopped n)) s₀ s →
      (bootsOf n s.frames).length ≤ 1 := by
  refine ⟨fun run s s' i o op rest => follower_returns, fun run s₀ s i rest => exists_running, ?_⟩
  intro s₀ s h₀ h
  rcases oneBoot_of_reach h₀ h with hnone | ⟨op, hone, -, -⟩
  · rw [← bootsOf_flight, hnone]
    exact Nat.zero_le 1
  · rw [← bootsOf_flight, hone]
    exact le_rfl

/-- `db` is started three times at once: two calls wait for the boot that the first one leads, which
fails, and the second of them returns its outcome after the first has. -/
theorem starts_coalesce_db :
    ∃ run s s', (system (oneService db)).Run (initial :: run) ∧
      (initial :: run).getLast? = some s ∧ s.threads[2]? = some [.start "db" (.wait 0)] ∧
      (system (oneService db)).next s (.step 2 none) = some s' ∧
      ∃ x y err, [x, y] <:+: initial :: run ∧ Publishes (oneService db) "db" 0 err x y ∧
        s'.threads[2]? = some [.ret err] := by
  obtain ⟨run, s, hrun, hlast, hst, hnext⟩ : ∃ (run : List State) (s : State),
      (system (oneService db)).Run (initial :: run) ∧ (initial :: run).getLast? = some s ∧
      s.threads[2]? = some [Frame.start "db" (.wait 0)] ∧
      ((system (oneService db)).next s (.step 2 none)).isSome :=
    ThreadSystem.Run.exists_of_runMeeting (K := Meeting Anyhow)
      (.call (.start "db") :: steps 0 2 ++ .call (.start "db") :: steps 1 1 ++
        .call (.start "db") :: steps 2 1 ++ .step 0 (some "no such image") ::
        steps 0 2 ++ steps 1 1)
      (by decide +kernel)
  obtain ⟨s', hnext⟩ := Option.isSome_iff_exists.mp hnext
  obtain ⟨err, hret, ⟨x, y, hxy, hpublishes⟩, -⟩ :=
    (starts_coalesce (oneService db) "db").1 run s s' 2 none 0 [] hrun hlast hst hnext
  exact ⟨run, s, s', hrun, hlast, hst, hnext, x, y, err, hxy, hpublishes, hret⟩

/-- **Two calls can be between writing `starting` and publishing the outcome**, with no `Stop` ever
called: the first has written `stopped`, since its `Up` has failed, and has not published this when
the second takes the lead. -/
theorem unpublished_overtaken :
    ∃ s, Reached (oneService db) (Unstopped "db") s ∧ leads s.frames = [0, 1] := by
  exact ThreadSystem.Reach.exists_of_runMeeting
    (.call (.start "db") :: steps 0 2 ++ .step 0 (some "no such image") :: steps 0 1 ++
      .call (.start "db") :: steps 1 1) (by decide +kernel)

end Containers.Lifecycle
