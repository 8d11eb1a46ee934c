import Containers.Lifecycle.Steps

/-!
# Whose boot it is

The handle of a boot and the booter of a lazy service are shared through pointers. A pointer to a
handle is kept for the service, and by each `Start` that leads the boot or follows it; a pointer to
a booter is kept for the service, and by each `Acquire` that goes through it.

Two facts about them hold in every interleaving. Wherever a pointer is found, it points to an object
of the service that it is found for (`Owned`): so a boot that is followed is a boot of the same
service, and the `Start` that a booter makes is a `Start` of the service whose `Acquire` waits for
it. And a frame of a stack is of the call that the frame below it has made (`Calls`).
-/

namespace Containers.Lifecycle

open Sections Function List

variable {rest : List Frame} {b : ℕ} {M : DefaultManager} {m m' : Memory} {o : Option String}
  {n : String} {A B used made F : List Frame} {f : Frame} {p : StartPoint} {T : List (List Frame)}
  {x : LazyBooter} {idle : Bool} {c : Call}

/-! ### Pointers -/

/-- The boot that a `Start` leads or follows. -/
def StartPoint.handle : StartPoint → Option ℕ
  | .enter => none
  | .wait op | .deps op _ | .awaitDep op _ _ | .up op | .check op | .health op _ => some op
  | .fail op _ | .commit op | .monitor op | .arm op _ | .finish op _ => some op

/-- The booter that an `Acquire` goes through. -/
def AcquirePoint.booter : AcquirePoint → Option ℕ
  | .ensure b | .booting b | .bootFailed b _ => some b
  | .enter | .lazy | .gate | .slot | .recheck | .unslot | .uncount _ | .readIdle | .touch _
  | .grant => none

def Memory.OwnsOp (m : Memory) (n : String) (op : ℕ) : Prop :=
  op < m.nextOp ∧ (m.startOp op).service = n

def Memory.OwnsBooter (m : Memory) (n : String) (b : ℕ) : Prop :=
  b < m.nextBooter ∧ (m.booter b).service = n

/-- What a frame points to is of the service that the frame is about. -/
def Frame.Owned (m : Memory) : Frame → Prop
  | .start n p => ∀ op ∈ p.handle, m.OwnsOp n op
  | .acquire n p => ∀ b ∈ p.booter, m.OwnsBooter n b
  | _ => True

/-- **The invariant**: every pointer is to an object of the service it is found for, and a
service that is `starting` has a handle. -/
structure Owned (m : Memory) (F : List Frame) : Prop where
  op : ∀ n, ∀ op ∈ (m.entry n).startOp, m.OwnsOp n op
  booter : ∀ n, ∀ b ∈ (m.entry n).lazyBooter, m.OwnsBooter n b
  starting : ∀ n, (m.entry n).state = .starting → (m.entry n).startOp ≠ none
  frames : ∀ f ∈ F, f.Owned m

theorem owned_initial : Owned {} [] where
  op _ _ h := by cases h
  booter _ _ h := by cases h
  starting _ h := by cases h
  frames _ h := absurd h not_mem_nil

/-! ### What a step does to the handles -/

/-- No boot begins. -/
structure Unled (m m' : Memory) : Prop where
  nextOp : m'.nextOp = m.nextOp
  service : ∀ op, (m'.startOp op).service = (m.startOp op).service
  startOp : ∀ n, (m'.entry n).startOp = (m.entry n).startOp
  starting : ∀ n, (m'.entry n).state = .starting → (m.entry n).state = .starting

theorem Aside.unled (h : Aside m m') : Unled m m' :=
  ⟨h.nextOp, fun op => by rw [h.ops], h.startOp, fun n => (h.state n).symm.trans⟩

theorem unled_of_entry_eq (hnext : m'.nextOp = m.nextOp)
    (hservice : ∀ op, (m'.startOp op).service = (m.startOp op).service)
    (hentry : m'.entry = m.entry) : Unled m m' :=
  ⟨hnext, hservice, fun n => by rw [hentry], fun n hs => by rwa [hentry] at hs⟩

theorem unled_of_entry (hnext : m'.nextOp = m.nextOp) (hops : m'.startOp = m.startOp)
    {f : ServiceEntry → ServiceEntry} (hentry : m'.entry = update m.entry n (f (m.entry n)))
    (hop : ∀ e, (f e).startOp = e.startOp)
    (hstate : ∀ e, (f e).state = .starting → e.state = .starting) : Unled m m' := by
  refine ⟨hnext, fun op => by rw [hops], entry_field hentry hop, fun n' hs => ?_⟩
  rw [hentry, update_apply] at hs
  split_ifs at hs with hn
  · rw [hn]
    exact hstate _ hs
  · exact hs

theorem unled_modify {f : ServiceEntry → ServiceEntry} (hop : ∀ e, (f e).startOp = e.startOp)
    (hstate : ∀ e, (f e).state = .starting → e.state = .starting) : Unled m (m.modify n f) :=
  unled_of_entry rfl rfl rfl hop hstate

theorem startOp_settle (op op' : ℕ) (err : Option String) : (m.settle op err).startOp op' =
    if op' = op then { m.startOp op with done := true, err := err } else m.startOp op' :=
  update_apply _ _ _ _

/-- **A `Start` begins a boot only where it takes the lead.** -/
theorem unled_of_startStep (h : startStep M m o n p = some (m', made)) :
    Unled m m' ∨ p = .enter ∧ m' = m.lead n ∧ ∃ deps, made = [.start n (.deps m.nextOp deps)] := by
  cases startStep_cases h with
  | lead => exact .inr ⟨rfl, rfl, _, rfl⟩
  | missing | already | orphaned | follow | told | ready | call | up | noUp | upFailed | noCheck
    | superseded | noMonitor | arm =>
    exact .inl (unled_of_entry_eq rfl (fun _ => rfl) rfl)
  | check =>
    refine .inl ?_
    split_ifs <;> exact unled_of_entry_eq rfl (fun _ => rfl) rfl
  | healthy | unhealthy => exact .inl (unled_modify (fun _ => rfl) fun _ => id)
  | fail | own | cancelled => exact .inl (unled_modify (fun _ => rfl) fun _ hs => by cases hs)
  | monitor =>
    exact .inl (unled_of_entry (f := fun e => { e with idleCtrl := some m.timers.length })
      rfl rfl rfl (fun _ => rfl) fun _ => id)
  | @finish op err =>
    refine .inl (unled_of_entry_eq rfl (fun op' => ?_) rfl)
    rw [startOp_settle]
    split_ifs with hop
    · rw [hop]
    · rfl

theorem unled_of_stopStep {p : StopPoint} (h : stopStep M m o n idle p = some (m', made)) :
    Unled m m' ∧ m'.startOp = m.startOp := by
  cases p with
  | enter =>
    rw [stopStep] at h
    split_ifs at h <;> cases h
    · exact ⟨Beside.refl.unled, rfl⟩
    · exact ⟨unled_modify (fun _ => rfl) fun _ hs => (by cases hs), rfl⟩
    · exact ⟨Beside.refl.unled, rfl⟩
  | quiet found timer =>
    cases h
    cases timer <;> exact ⟨unled_of_entry_eq rfl (fun _ => rfl) rfl, rfl⟩
  | down found =>
    cases h
    exact ⟨Beside.refl.unled, rfl⟩
  | downing found =>
    cases h
    split_ifs <;> exact ⟨unled_of_entry_eq rfl (fun _ => rfl) rfl, rfl⟩
  | write found err =>
    cases err <;> cases h <;> exact ⟨unled_modify (fun _ => rfl) fun _ hs => (by cases hs), rfl⟩

/-- **A boot begins only where a `Start` takes the lead.** -/
theorem unled_of_turn (hturn : Turn M m o used m' made) : Unled m m' ∨
    ∃ n deps, used = [.start n .enter] ∧ m' = m.lead n ∧
    made = [.start n (.deps m.nextOp deps)] := by
  cases turnStep_of_turn hturn with
  | start h | startRet h =>
    rcases unled_of_startStep h with hunled | ⟨rfl, rfl, deps, hmade⟩
    · exact .inl hunled
    · exact .inr ⟨_, deps, rfl, rfl, hmade⟩
  | stop h | stopRet h => exact .inl (unled_of_stopStep h).1
  | acquire h | acquireCall h | acquireRet h => exact .inl (beside_of_acquireStep h).1.unled
  | release _ h | releaseRet _ h => exact .inl (beside_of_releaseStep h).1.unled
  | fire _ h | fireRet _ h => exact .inl (keeps_of_fireStep h).2.1.unled
  | bootRet => exact .inl (unled_of_entry_eq rfl (fun _ => rfl) rfl)
  | startCall | shutdown | shutdownRet | depRet | nextStop | leave => exact .inl Beside.refl.unled

/-- **Where the handle of a `Start` comes from**: it had it, or took it from the service, or
leads a new boot. -/
theorem handle_of_turn (hturn : Turn M m o used m' made) (hp : .start n p ∈ made) {op : ℕ}
    (hop : op ∈ p.handle) : (∃ q, .start n q ∈ used ∧ op ∈ q.handle) ∨
      op ∈ (m.entry n).startOp ∨ op = m.nextOp ∧ m' = m.lead n := by
  cases turnStep_of_turn hturn with
  | start hstep =>
    cases mem_singleton.mp hp
    cases startStep_cases hstep with
    | ready | up | noUp | upFailed | check | noCheck | healthy | unhealthy | fail | own | cancelled
      | superseded | monitor | noMonitor | arm => exact .inl ⟨_, mem_singleton_self _, hop⟩
    | follow hspec hstate hentry =>
      cases hop
      exact .inr (.inl hentry)
    | lead =>
      cases hop
      exact .inr (.inr ⟨rfl, rfl⟩)
  | startCall =>
    rcases mem_cons.mp hp with hp | hp
    · cases hp
      cases hop
    · cases mem_singleton.mp hp
      exact .inl ⟨_, mem_singleton_self _, hop⟩
  | acquireCall =>
    rcases mem_cons.mp hp with hp | hp
    · cases hp
      cases hop
    · cases mem_singleton.mp hp
  | @depRet _ _ dep op' rest _ hq =>
    cases mem_singleton.mp hp
    refine .inl ⟨.awaitDep op' dep rest, by simp, ?_⟩
    rcases hq with ⟨-, rfl⟩ | ⟨text, rfl⟩ <;> exact hop
  | shutdown => simp at hp
  | leave => cases hp
  | _ => cases mem_singleton.mp hp

/-! ### What a step does to the booters -/

/-- **What a step can do to the booters.** -/
inductive BooterTurn (m : Memory) : List Frame → Memory → List Frame → Prop
  /-- It leaves them alone, and passes on the pointers there are. -/
  | kept {used made : List Frame} {m' : Memory} (h : Unbooted m m')
      (hused : ∀ n b, .acquire n (.booting b) ∉ used ∧ ∀ err, .acquire n (.bootFailed b err) ∉ used)
      (hmade : ∀ n p, .acquire n p ∈ made → ∀ b ∈ p.booter,
        b ∈ (m.entry n).lazyBooter ∨ ∃ q, .acquire n q ∈ used ∧ b ∈ q.booter) :
      BooterTurn m used m' made
  /-- An `Acquire` makes a booter for the service. -/
  | create {n : String} :
      BooterTurn m [.acquire n .lazy] (m.newBooter n) [.acquire n (.ensure m.nextBooter)]
  /-- The booter sets out. -/
  | fire {n : String} {b : ℕ} :
      BooterTurn m [.acquire n (.ensure b)]
        (m.setBooter b { m.booter b with started := .starting })
        [.start (m.booter b).service .enter, .acquire n (.booting b)]
  /-- The booter has run. -/
  | settle {n : String} {b : ℕ} {err : Option String} {p : AcquirePoint}
      (hp : err = none ∧ p = .gate ∨ ∃ text, err = some text ∧ p = .bootFailed b text) :
      BooterTurn m [.ret err, .acquire n (.booting b)]
        (m.setBooter b { m.booter b with started := .started, err := err }) [.acquire n p]
  /-- A booter that has failed is taken away. -/
  | clear {n : String} {b : ℕ} {text err : String} {m' : Memory} (h : Unbooted m m')
      (hb : (m'.entry n).lazyBooter ≠ some b) :
      BooterTurn m [.acquire n (.bootFailed b text)] m' [.ret (some err)]

theorem booterTurn_of_acquireStep {p : AcquirePoint} (h : acquireStep M m o n p = some (m', made)) :
    BooterTurn m [.acquire n p] m' made := by
  -- the other points know of no booter
  have hother : p.booter = none → Unbooted m m' →
      (∀ n p, .acquire n p ∈ made → ∀ b ∈ p.booter, b ∈ (m.entry n).lazyBooter) →
      BooterTurn m [.acquire n p] m' made := by
    intro hp hm hmade
    refine .kept hm (fun n' b => ?_) fun n' q hq b hb => .inl (hmade n' q hq b hb)
    constructor
    · intro hmem
      cases mem_singleton.mp hmem
      cases hp
    · intro err hmem
      cases mem_singleton.mp hmem
      cases hp
  have hret : ∀ {err}, ∀ n p, .acquire n p ∈ [Frame.ret err] → ∀ b ∈ p.booter,
      b ∈ (m.entry n).lazyBooter := by
    intro err n' p hp
    cases mem_singleton.mp hp
  have hbare : ∀ {q : AcquirePoint}, q.booter = none → ∀ n' p, .acquire n' p ∈ [Frame.acquire n q] →
      ∀ b ∈ p.booter, b ∈ (m.entry n').lazyBooter := by
    intro q hq n' p hp b hb
    cases mem_singleton.mp hp
    cases hq.symm.trans hb
  have hmodify : ∀ {f : ServiceEntry → ServiceEntry}, (∀ e, (f e).lazyBooter = e.lazyBooter) →
      Unbooted m (m.modify n f) :=
    fun hf => unbooted_of_entry rfl rfl rfl fun e b => (hf e).symm.trans
  cases p with
  | enter =>
    cases hs : M.services.lookup n <;> rw [acquireStep, hs] at h <;> cases h
    · exact hother rfl .refl hret
    · exact hother rfl .refl (hbare (by split_ifs <;> rfl))
  | lazy =>
    cases hb : (m.entry n).lazyBooter <;> rw [acquireStep, hb] at h <;> cases h
    · exact .create
    · refine hother rfl .refl fun n' q hq b' hb' => ?_
      cases mem_singleton.mp hq
      cases hb'
      exact hb
  | ensure b =>
    cases hs : (m.booter b).started <;> simp only [acquireStep, hs] at h <;> cases h
    · exact .fire
    · refine .kept .refl (fun n' b' => ⟨by simp, by simp⟩) fun n' q hq b' hb' => .inr ?_
      cases mem_singleton.mp hq
      refine ⟨.ensure b, mem_singleton_self _, ?_⟩
      cases herr : (m.booter b).err <;> rw [herr] at hb' <;> cases hb'
      rfl
  | booting b => cases h
  | bootFailed b err =>
    cases h
    split_ifs with hb
    · refine .clear (unbooted_of_entry (f := fun e => { e with lazyBooter := none }) rfl rfl rfl
        fun _ _ hb => by cases hb) ?_
      rw [entry_modify]
      exact fun h => by cases h
    · exact .clear .refl hb
  | gate =>
    rw [acquireStep] at h
    split_ifs at h <;> cases h
    · exact hother rfl (hmodify fun _ => rfl) (hbare rfl)
    · exact hother rfl .refl hret
  | slot =>
    rw [acquireStep] at h
    split_ifs at h
    · cases h
      exact hother rfl .refl (hbare rfl)
    all_goals cases o <;> cases h
    · exact hother rfl (hmodify fun _ => rfl) (hbare rfl)
    · exact hother rfl .refl (hbare rfl)
    · exact hother rfl .refl (hbare rfl)
  | recheck =>
    cases h
    exact hother rfl .refl (hbare (by split_ifs <;> rfl))
  | readIdle | touch _ =>
    cases h
    exact hother rfl .refl (hbare rfl)
  | unslot =>
    cases h
    exact hother rfl (hmodify fun _ => rfl) (hbare rfl)
  | uncount err =>
    cases h
    exact hother rfl (hmodify fun _ => rfl) hret
  | grant =>
    cases h
    exact hother rfl ⟨rfl, rfl, fun _ _ => id⟩ hret

theorem booterTurn_of_turn (hturn : Turn M m o used m' made) : BooterTurn m used m' made := by
  -- no `Acquire` is involved
  have hnone : ∀ {used made : List Frame} {m' : Memory}, Unbooted m m' →
      (∀ n p, .acquire n p ∉ used) → (∀ n p, .acquire n p ∉ made) → BooterTurn m used m' made :=
    fun hm hused hmade => .kept hm (fun n b => ⟨hused n _, fun _ => hused n _⟩)
      fun n p hp => absurd hp (hmade n p)
  cases turnStep_of_turn hturn with
  | start h | startRet h => exact hnone (keeps_of_startStep h).toUnbooted (by simp) (by simp)
  | stop h | stopRet h => exact hnone (keeps_of_stopStep h).1.toUnbooted (by simp) (by simp)
  | acquire h | acquireCall h | acquireRet h => exact booterTurn_of_acquireStep h
  | release _ h | releaseRet _ h => exact hnone (beside_of_releaseStep h).2.1 (by simp) (by simp)
  | fire _ h | fireRet _ h => exact hnone (keeps_of_fireStep h).1.toUnbooted (by simp) (by simp)
  | bootRet hp => exact .settle hp
  | startCall | shutdown | shutdownRet | depRet | nextStop | leave =>
    exact hnone .refl (by simp) (by simp)

/-! ### Pointers stay good -/

/-- Pointers stay good, and what is kept for a service is an old pointer or a good one. -/
structure Grows (m m' : Memory) : Prop where
  ownsOp : ∀ n op, m.OwnsOp n op → m'.OwnsOp n op
  ownsBooter : ∀ n b, m.OwnsBooter n b → m'.OwnsBooter n b
  op : ∀ n, ∀ op ∈ (m'.entry n).startOp, op ∈ (m.entry n).startOp ∨ m'.OwnsOp n op
  booter : ∀ n, ∀ b ∈ (m'.entry n).lazyBooter,
    b ∈ (m.entry n).lazyBooter ∨ b = m.nextBooter ∧ m'.OwnsBooter n b
  starting : ∀ n, (m'.entry n).state = .starting → (m'.entry n).startOp = none →
    (m.entry n).state = .starting ∧ (m.entry n).startOp = none

theorem Unled.grows (h : Unled m m') (hbooters : Unbooted m m') : Grows m m' where
  ownsOp n op hop := ⟨hop.1.trans_eq h.nextOp.symm, (h.service op).trans hop.2⟩
  ownsBooter n b hb := ⟨hb.1.trans_eq hbooters.nextBooter.symm, by rw [hbooters.booter, hb.2]⟩
  op n op hop := .inl (by rwa [← h.startOp n])
  booter n b hb := .inl (hbooters.lazyBooter n b hb)
  starting n hs hnone := ⟨h.starting n hs, (h.startOp n).symm.trans hnone⟩

theorem startOp_lead :
    (m.lead n).startOp = update m.startOp m.nextOp { service := n } := rfl

theorem entry_lead (n' : String) : (m.lead n).entry n' = if n' = n then
    { m.entry n with state := .starting, startOp := some m.nextOp } else m.entry n' :=
  update_apply _ _ _ _

theorem grows_lead : Grows m (m.lead n) ∧ (m.lead n).OwnsOp n m.nextOp := by
  have hnew : (m.lead n).OwnsOp n m.nextOp :=
    ⟨Nat.lt_succ_self _, by rw [startOp_lead, update_self]⟩
  refine ⟨⟨fun n' op hop => ?_, fun _ _ => id, fun n' op hop => ?_, fun n' b hb => .inl ?_,
    fun n' hs hnone => ?_⟩, hnew⟩
  · refine ⟨hop.1.trans (Nat.lt_succ_self _), ?_⟩
    rw [startOp_lead, update_of_ne hop.1.ne]
    exact hop.2
  · rw [entry_lead] at hop
    split_ifs at hop with hn
    · cases hop
      rw [hn]
      exact .inr hnew
    · exact .inl hop
  · rw [entry_lead] at hb
    split_ifs at hb with hn
    · rwa [hn]
    · exact hb
  · rw [entry_lead] at hs hnone
    split_ifs at hs hnone with hn
    exact ⟨hs, hnone⟩

theorem booter_newBooter : (m.newBooter n).booter m.nextBooter = { service := n } :=
  update_self _ _ _

theorem booter_newBooter_of_ne (h : b ≠ m.nextBooter) :
    (m.newBooter n).booter b = m.booter b := update_of_ne h _ _

theorem entry_newBooter (n' : String) : (m.newBooter n).entry n' = if n' = n then
    { m.entry n with lazyBooter := some m.nextBooter } else m.entry n' :=
  update_apply _ _ _ _

theorem booter_setBooter (b' : ℕ) :
    (m.setBooter b x).booter b' = if b' = b then x else m.booter b' := update_apply _ _ _ _

theorem grows_newBooter : Grows m (m.newBooter n) ∧ (m.newBooter n).OwnsBooter n m.nextBooter := by
  have hnew : (m.newBooter n).OwnsBooter n m.nextBooter :=
    ⟨Nat.lt_succ_self _, by rw [booter_newBooter]⟩
  have hop : ∀ n', ((m.newBooter n).entry n').startOp = (m.entry n').startOp ∧
      ((m.newBooter n).entry n').state = (m.entry n').state := by
    intro n'
    rw [entry_newBooter]
    split_ifs with hn
    · rw [hn]
      exact ⟨rfl, rfl⟩
    · exact ⟨rfl, rfl⟩
  refine ⟨⟨fun _ _ => id, fun n' b hb => ?_, fun n' op h => .inl ?_, fun n' b hb => ?_,
    fun n' hs hnone => ?_⟩, hnew⟩
  · refine ⟨hb.1.trans (Nat.lt_succ_self _), ?_⟩
    rw [booter_newBooter_of_ne hb.1.ne]
    exact hb.2
  · rwa [← (hop n').1]
  · rw [entry_newBooter] at hb
    split_ifs at hb with hn
    · cases hb
      rw [hn]
      exact .inr ⟨rfl, hnew⟩
    · exact .inl hb
  · rw [(hop n').1] at hnone
    rw [(hop n').2] at hs
    exact ⟨hs, hnone⟩

theorem grows_setBooter (hx : x.service = (m.booter b).service) : Grows m (m.setBooter b x) := by
  refine ⟨fun _ _ => id, fun n' b' hb => ⟨hb.1, ?_⟩, fun _ _ => .inl, fun _ _ => .inl,
    fun _ hs hnone => ⟨hs, hnone⟩⟩
  rw [booter_setBooter]
  split_ifs with h
  · rw [hx, ← h, hb.2]
  · exact hb.2

theorem grows_of_turn (hturn : Turn M m o used m' made) : Grows m m' := by
  rcases unled_of_turn hturn with hunled | ⟨n, deps, rfl, rfl, rfl⟩
  · cases booterTurn_of_turn hturn with
    | kept h | clear h => exact hunled.grows h
    | create => exact grows_newBooter.1
    | fire | settle => exact grows_setBooter rfl
  · exact grows_lead.1

theorem Frame.Owned.grow (h : f.Owned m) (hm : Grows m m') : f.Owned m' := by
  cases f with
  | start n p => exact fun op hop => hm.ownsOp n op (h op hop)
  | acquire n p => exact fun b hb => hm.ownsBooter n b (h b hb)
  | stop | release | fire | shutdown | ret => trivial

/-- **Every step keeps the pointers good.** -/
theorem Owned.turn (h : Owned m (A ++ (used ++ B))) (hturn : Turn M m o used m' made) :
    Owned m' (A ++ (made ++ B)) := by
  have hm := grows_of_turn hturn
  have hused : ∀ f ∈ used, f.Owned m' := fun f hf => (h.frames f (by simp [hf])).grow hm
  constructor
  · intro n op hop
    exact (hm.op n op hop).elim (fun hold => hm.ownsOp n op (h.op n op hold)) id
  · intro n b hb
    exact (hm.booter n b hb).elim (fun hold => hm.ownsBooter n b (h.booter n b hold)) (·.2)
  · intro n hstarting hnone
    obtain ⟨hold, hnone⟩ := hm.starting n hstarting hnone
    exact h.starting n hold hnone
  · refine forall_mem_made
      (fun f hf => (forall_mem_rest h.frames f hf).grow hm) fun f hf => ?_
    cases f with
    | start n p =>
      intro op hop
      rcases handle_of_turn hturn hf hop with ⟨q, hq, hold⟩ | hentry | ⟨rfl, rfl⟩
      · exact hused _ hq op hold
      · exact hm.ownsOp n op (h.op n op hentry)
      · exact grows_lead.2
    | acquire n p =>
      intro b hb
      cases booterTurn_of_turn hturn with
      | kept h' hused' hmade =>
        rcases hmade n p hf b hb with hentry | ⟨q, hq, hold⟩
        · exact hm.ownsBooter n b (h.booter n b hentry)
        · exact hused _ hq b hold
      | create =>
        cases mem_singleton.mp hf
        cases hb
        exact grows_newBooter.2
      | fire =>
        rcases mem_cons.mp hf with hf | hf
        · cases hf
        · cases mem_singleton.mp hf
          exact hused _ (mem_singleton_self _) b hb
      | settle hp =>
        cases mem_singleton.mp hf
        rcases hp with ⟨-, rfl⟩ | ⟨text, -, rfl⟩
        · cases hb
        · exact hused (.acquire n (.booting _)) (by simp) b hb
      | clear => cases mem_singleton.mp hf
    | stop | release | fire | shutdown | ret => trivial

theorem Owned.call (h : Owned m F) (hc : call m c = some [f]) : Owned m (F ++ [f]) := by
  refine { h with frames := forall_mem_call h.frames ?_ }
  rcases opening_of_call hc <;> first | trivial | exact fun _ h => by cases h

/-! ### The stacks -/

/-- **A call that was made**: the frame below has called what the frame above is at, or what
has just returned. -/
inductive Calls : Frame → Frame → Prop
  | dep {n dep : String} {op : ℕ} {rest : List String} {p : StartPoint} :
      Calls (.start n (.awaitDep op dep rest)) (.start dep p)
  | depDone {n dep : String} {op : ℕ} {rest : List String} {err : Option String} :
      Calls (.start n (.awaitDep op dep rest)) (.ret err)
  | boot {n : String} {b : ℕ} {p : StartPoint} : Calls (.acquire n (.booting b)) (.start n p)
  | bootDone {n : String} {b : ℕ} {err : Option String} :
      Calls (.acquire n (.booting b)) (.ret err)
  | stop {rest : List String} {firstErr : Option String} {n : String} {p : StopPoint} :
      Calls (.shutdown rest firstErr) (.stop n false p)
  | stopDone {rest : List String} {firstErr err : Option String} :
      Calls (.shutdown rest firstErr) (.ret err)

/-- Every frame of a stack, innermost first, was called by the next. -/
abbrev Stacked (st : List Frame) : Prop := st.IsChain fun g f => Calls f g

theorem Calls.ret {g : Frame} (h : Calls f g) (err : Option String) : Calls f (.ret err) := by
  cases h with
  | dep | depDone => exact .depDone
  | boot | bootDone => exact .bootDone
  | stop | stopDone => exact .stopDone

theorem Calls.start {p' : StartPoint} (h : Calls f (.start n p)) : Calls f (.start n p') := by
  cases h with
  | dep => exact .dep
  | boot => exact .boot

theorem Calls.stopping {p p' : StopPoint} (h : Calls f (.stop n idle p)) :
    Calls f (.stop n idle p') := by
  cases h with
  | stop => exact .stop

theorem Stacked.replace (h : Stacked (used ++ rest)) (hmade : Stacked made)
    (hlast : ∀ u ∈ used.getLast?, ∀ g ∈ made.getLast?, ∀ f, Calls f u → Calls f g)
    (hused : used ≠ []) : Stacked (made ++ rest) := by
  obtain ⟨-, hrest, hjoin⟩ := isChain_append.mp h
  refine isChain_append.mpr ⟨hmade, hrest, fun g hg f hf => ?_⟩
  have hu : used.getLast hused ∈ used.getLast? := getLast?_eq_some_getLast hused
  exact hlast _ hu g hg f (hjoin _ hu f hf)

/-- **Every step keeps the stack a stack of calls.** -/
theorem Stacked.turn (h : Stacked (used ++ rest)) (hturn : Turn M m o used m' made)
    (howned : ∀ f ∈ used, f.Owned m) : Stacked (made ++ rest) := by
  -- one frame for another, in the same place
  have hswap : ∀ {u g : Frame}, used.getLast? = some u → (∀ f, Calls f u → Calls f g) →
      Stacked ([g] ++ rest) := by
    intro u g hu hcalls
    refine h.replace (isChain_singleton g) ?_ (by rintro rfl; cases hu)
    intro u' hu' g' hg' f hf
    cases hu.symm.trans hu'
    cases hg'
    exact hcalls f hf
  cases turnStep_of_turn hturn with
  | start | depRet => exact hswap rfl fun _ hf => hf.start
  | startCall => exact isChain_cons_cons.mpr ⟨.dep, hswap rfl fun _ hf => hf.start⟩
  | stop => exact hswap rfl fun _ hf => hf.stopping
  | @acquireCall n b =>
    have hself : (Frame.acquire n (.ensure b)).Owned m := howned _ (by simp)
    have hservice : (m.booter b).service = n := (hself b rfl).2
    rw [hservice]
    exact isChain_cons_cons.mpr ⟨.boot, hswap rfl fun _ hf => by cases hf⟩
  | shutdown => exact isChain_cons_cons.mpr ⟨.stop, hswap rfl fun _ hf => by cases hf⟩
  | startRet | stopRet | acquireRet | releaseRet | fireRet | shutdownRet =>
    exact hswap rfl fun _ hf => hf.ret _
  | acquire | release | fire | bootRet | nextStop => exact hswap rfl fun _ hf => by cases hf
  | leave => exact IsChain.of_cons h

theorem entered_of_turn (hturn : Turn M m o used m' made) : made.IsChain fun g _ =>
    (∃ n, g = .start n .enter) ∨ ∃ n idle, g = .stop n idle .enter := by
  cases turnStep_of_turn hturn with
  | startCall | acquireCall => exact isChain_pair.mpr (.inl ⟨_, rfl⟩)
  | shutdown => exact isChain_pair.mpr (.inr ⟨_, _, rfl⟩)
  | leave => exact isChain_nil
  | _ => exact isChain_singleton _

/-! ### All runs -/

/-- **The pointers are good, and the stacks are stacks of calls.** -/
structure Orderly (m : Memory) (T : List (List Frame)) : Prop where
  owned : Owned m T.flatten
  stacked : ∀ st ∈ T, Stacked st

theorem orderly_initial : Orderly {} [] :=
  ⟨owned_initial, forall_mem_nil _⟩

theorem flatten_call (T : List (List Frame)) (f : Frame) :
    (T ++ [[f]]).flatten = T.flatten ++ [f] := by simp

theorem flatten_turn (T T' : List (List Frame)) (top rest : List Frame) :
    (T ++ (top ++ rest) :: T').flatten = T.flatten ++ (top ++ (rest ++ T'.flatten)) := by simp

theorem Orderly.call (h : Orderly m T) (hc : call m c = some [f]) : Orderly m (T ++ [[f]]) := by
  refine ⟨?_, forall_mem_call h.stacked (isChain_singleton f)⟩
  rw [flatten_call]
  exact h.owned.call hc

theorem Orderly.turn {T' : List (List Frame)} (h : Orderly m (T ++ (used ++ rest) :: T'))
    (hturn : Turn M m o used m' made) : Orderly m' (T ++ (made ++ rest) :: T') := by
  have howned := h.owned
  rw [flatten_turn] at howned
  refine ⟨?_, forall_mem_before ?_ (forall_mem_others h.stacked)⟩
  · rw [flatten_turn]
    exact howned.turn hturn
  · exact (h.stacked _ (by simp)).turn hturn fun f hf => howned.frames f (by simp [hf])

/-- **So it is in every interleaving.** -/
theorem orderly_of_reached {C : Condition} {s : State} (h : Reached M C s) :
    Orderly s.memory s.threads :=
  meeting_induction h orderly_initial (fun _ _ _ _ hI => hI.call)
    fun _ _ _ _ _ _ _ _ hI _ => hI.turn

end Containers.Lifecycle
