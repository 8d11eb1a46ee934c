import Containers.Event.Bus

/-!
# The event bus is memory-safe

No value is sent on a closed channel and no channel is closed twice, in any interleaving
(`bus_safe`).

A `Publish` sends to subscribers that it has found in the map. They are still there while it holds
the read lock, since who takes a subscriber out of the map waits for all readers (`Registered`). A
channel is closed only by `requestStop`, which closes it once (`Sound`), and `requestStop` is called
only for subscribers that have left the map; no subscriber returns to it, as every subscription has
a pointer of its own.
-/

namespace Containers.EventBus

open Go ThreadSystem Sections List GoMap

variable {d : Delivery} {m m' : Memory} {o : Answer} {A B F made : List Frame} {f : Frame} {p q : ℕ}
  {id : String} {sub : Subscription}

/-! ### Who is in the map -/

/-- The subscribers that a `Publish` has still to meet. -/
def Frame.left : Frame → Option (List ℕ)
  | .publishing _ left => some left
  | _ => none

/-- The subscribers that a call has taken out of the map and has still to stop. -/
def Frame.stops : Frame → List ℕ
  | .stop p => [p]
  | .stopping left _ => left
  | _ => []

/-- **Who is in the map**: what a `Publish` has still to meet is there, and what is to be stopped is
not. -/
structure Registered (m : Memory) (F : List Frame) : Prop where
  readers : (F.filterMap Frame.left).length = m.readers
  present : ∀ left ∈ F.filterMap Frame.left, ∀ p ∈ left, ∃ id, m.subs.lookup id = some p
  created : ∀ id p, m.subs.lookup id = some p → p < m.created
  inj : ∀ id id' p, m.subs.lookup id = some p → m.subs.lookup id' = some p → id = id'
  stops : ∀ f ∈ F, ∀ p ∈ f.stops, p < m.created ∧ ∀ id, m.subs.lookup id ≠ some p
  empty : m.closed = true → ∀ id, m.subs.lookup id = none

/-- The parts of the memory that the map of the subscribers is about. -/
structure SameMap (m m' : Memory) : Prop where
  subs : m'.subs = m.subs
  created : m'.created = m.created
  nextID : m'.nextID = m.nextID
  closed : m'.closed = m.closed

theorem SameMap.refl : SameMap m m := ⟨rfl, rfl, rfl, rfl⟩

theorem sameMap_send : SameMap m (m.send d p) ∧ (m.send d p).readers = m.readers := by
  rw [Memory.send]
  split_ifs <;> exact ⟨⟨rfl, rfl, rfl, rfl⟩, rfl⟩

theorem sameMap_requestStop :
    SameMap m (m.requestStop p) ∧ (m.requestStop p).readers = m.readers := by
  rw [Memory.requestStop]
  split_ifs <;> exact ⟨⟨rfl, rfl, rfl, rfl⟩, rfl⟩

theorem sameMap_exit : SameMap m (m.exit p) ∧ (m.exit p).readers = m.readers := by
  rw [Memory.exit]
  split_ifs <;> exact ⟨⟨rfl, rfl, rfl, rfl⟩, rfl⟩

/-- **A section that leaves the map as it is.** -/
theorem Registered.of_sameMap (h : Registered m (A ++ f :: B)) (hmap : SameMap m m')
    (hreaders : m'.readers + f.left.toList.length =
      m.readers + (made.filterMap Frame.left).length)
    (hleft : ∀ left ∈ made.filterMap Frame.left, ∀ p ∈ left, ∃ id, m.subs.lookup id = some p)
    (hstops : ∀ g ∈ made, ∀ p ∈ g.stops, p < m.created ∧ ∀ id, m.subs.lookup id ≠ some p) :
    Registered m' (A ++ (made ++ B)) := by
  have hbefore := held_perm A B f Frame.left
  have hafter := held_made_perm A B made Frame.left
  refine ⟨?_, ?_, ?_, ?_, ?_, ?_⟩
  · have hlength := hbefore.length_eq
    rw [hafter.length_eq, length_append]
    rw [h.readers, length_append] at hlength
    omega
  · rw [hmap.subs]
    intro left hmem
    rcases mem_append.mp (hafter.mem_iff.mp hmem) with hmem | hmem
    · exact hleft left hmem
    · exact h.present left (hbefore.mem_iff.mpr (mem_append_right _ hmem))
  · rw [hmap.subs, hmap.created]
    exact h.created
  · rw [hmap.subs]
    exact h.inj
  · rw [hmap.subs, hmap.created]
    exact forall_mem_made (forall_mem_others h.stops) hstops
  · rw [hmap.subs, hmap.closed]
    exact h.empty

theorem Registered.left_eq_nil (h : Registered m F) (hreaders : m.readers = 0) :
    F.filterMap Frame.left = [] :=
  length_eq_zero_iff.mp (h.readers.trans hreaders)

/-- **A section that changes the map**: it has waited for all readers. -/
theorem Registered.of_writer (h : Registered m (A ++ f :: B)) (hreaders : m.readers = 0)
    (hreaders' : m'.readers = 0) (hmade : made.filterMap Frame.left = [])
    (hcreated : m.created ≤ m'.created)
    (hlookup : ∀ id p, m'.subs.lookup id = some p → m.subs.lookup id = some p ∨ p = m.created ∧
      p < m'.created)
    (hinj : ∀ id id' p, m'.subs.lookup id = some p → m'.subs.lookup id' = some p → id = id')
    (hstops : ∀ g ∈ made, ∀ p ∈ g.stops, p < m'.created ∧ ∀ id, m'.subs.lookup id ≠ some p)
    (hempty : m'.closed = true → ∀ id, m'.subs.lookup id = none) :
    Registered m' (A ++ (made ++ B)) := by
  have hbefore := held_perm A B f Frame.left
  have hafter := held_made_perm A B made Frame.left
  rw [h.left_eq_nil hreaders] at hbefore
  have hrest : (A ++ B).filterMap Frame.left = [] :=
    (append_eq_nil_iff.mp (hbefore.symm.eq_nil)).2
  rw [hmade, hrest] at hafter
  have hnone := hafter.eq_nil
  refine ⟨?_, ?_, ?_, hinj, ?_, hempty⟩
  · rw [hnone, hreaders']
    rfl
  · rw [hnone]
    exact forall_mem_nil _
  · intro id p hp
    rcases hlookup id p hp with hp | ⟨-, hlt⟩
    · exact lt_of_lt_of_le (h.created id p hp) hcreated
    · exact hlt
  · refine forall_mem_made (fun g hg p hp => ?_) hstops
    obtain ⟨hlt, hgone⟩ := h.stops g (mem_of_mem_rest hg) p hp
    refine ⟨lt_of_lt_of_le hlt hcreated, fun id hid => ?_⟩
    rcases hlookup id p hid with hid | ⟨rfl, -⟩
    · exact hgone id hid
    · exact absurd hlt (lt_irrefl _)

theorem mem_left_of_step (h : Registered m (A ++ f :: B)) {left : List ℕ} (hf : f.left = some left)
    (hp : p ∈ left) : ∃ id, m.subs.lookup id = some p := by
  refine h.present left ((held_perm A B f Frame.left).mem_iff.mpr ?_) p hp
  rw [hf]
  exact mem_cons_self

theorem mem_subscribers (h : p ∈ m.subscribers) : ∃ id, m.subs.lookup id = some p := by
  obtain ⟨e, he, rfl⟩ := mem_map.mp h
  exact ⟨e.1, lookup_of_mem_entries he⟩

theorem Registered.of_idle (h : Registered m (A ++ f :: B)) (hmap : SameMap m m')
    (hreaders : m'.readers = m.readers) (hf : f.left = none)
    (hmade : made.filterMap Frame.left = []) (hstops : made.flatMap Frame.stops ⊆ f.stops) :
    Registered m' (A ++ (made ++ B)) := by
  exact h.of_sameMap hmap (by rw [hf, hmade, hreaders]; rfl) (by simp [hmade])
    fun g hg p hp => h.stops f mem_subject p (hstops (mem_flatMap.mpr ⟨g, hg, hp⟩))

/-- **Every section keeps the map.** -/
theorem registered_step (h : Registered m (A ++ f :: B)) (hstep : Effect m f m' made) :
    Registered m' (A ++ (made ++ B)) := by
  cases hstep with
  | publishClosed event =>
    exact h.of_idle ⟨rfl, rfl, rfl, rfl⟩ rfl rfl rfl (nil_subset _)
  | begin event =>
    exact h.of_sameMap ⟨rfl, rfl, rfl, rfl⟩ rfl
      (forall_mem_singleton.mpr fun p => mem_subscribers) (by simp [Frame.stops])
  | send d left i p hp =>
    exact h.of_sameMap sameMap_send.1 (by rw [sameMap_send.2]; rfl)
      (forall_mem_singleton.mpr fun q hq => mem_left_of_step h rfl (mem_of_mem_eraseIdx hq))
      (by simp [Frame.stops])
  | finish d =>
    have hpos : 0 < m.readers := by
      rw [← h.readers, (held_perm A B (.publishing d []) Frame.left).length_eq]
      exact Nat.succ_pos _
    exact h.of_sameMap ⟨rfl, rfl, rfl, rfl⟩ (Nat.sub_add_cancel hpos) (forall_mem_nil _)
      (by simp [Frame.stops])
  | subscribe filter id hreaders hopen hid =>
    -- the new subscription takes a pointer that nothing in the map has
    have hlookup : ∀ id' p, (m.subs.insert id m.created).lookup id' = some p →
        id' = id ∧ p = m.created ∨ m.subs.lookup id' = some p :=
      fun id' p hp => (lookup_insert_iff.mp hp).imp_right And.right
    refine h.of_writer hreaders hreaders rfl (Nat.le_succ _) (fun id' p hp => ?_)
      (fun id₁ id₂ p h₁ h₂ => ?_) (by simp [Frame.stops])
      fun hc => absurd (hopen.symm.trans hc) Bool.false_ne_true
    · rcases hlookup id' p hp with ⟨-, rfl⟩ | hp
      · exact .inr ⟨rfl, Nat.lt_succ_self _⟩
      · exact .inl hp
    · rcases hlookup id₁ p h₁ with ⟨hid₁, hp₁⟩ | hold₁ <;>
        rcases hlookup id₂ p h₂ with ⟨hid₂, hp₂⟩ | hold₂
      · exact hid₁.trans hid₂.symm
      · exact absurd (h.created _ _ hold₂) (hp₁ ▸ lt_irrefl _)
      · exact absurd (h.created _ _ hold₁) (hp₂ ▸ lt_irrefl _)
      · exact h.inj id₁ id₂ p hold₁ hold₂
  | remove id p hreaders hp =>
    have hlookup : ∀ {id' q}, (m.subs.erase id).lookup id' = some q →
        id' ≠ id ∧ m.subs.lookup id' = some q := lookup_erase_iff.mp
    refine h.of_writer hreaders hreaders rfl le_rfl (fun id' q hq => .inl (hlookup hq).2)
      (fun id₁ id₂ q h₁ h₂ => h.inj id₁ id₂ q (hlookup h₁).2 (hlookup h₂).2)
      (forall_mem_singleton.mpr (forall_mem_singleton.mpr
        ⟨h.created id p hp, fun id' hid' => (hlookup hid').1 ?_⟩)) (fun hc id' => ?_)
    · exact h.inj id' id p (hlookup hid').2 hp
    · rw [h.empty hc id] at hp
      cases hp
  | close hreaders hopen =>
    have hshut : m.shut.readers = m.readers ∧ m.shut.created = m.created := by
      rw [Memory.shut]
      split_ifs <;> exact ⟨rfl, rfl⟩
    refine h.of_writer hreaders (hshut.1.trans hreaders) rfl hshut.2.ge (by simp [Memory.log])
      (by simp [Memory.log]) (forall_mem_singleton.mpr fun q hq => ?_) (fun _ => AList.lookup_empty)
    obtain ⟨id, hid⟩ := mem_subscribers hq
    exact ⟨(h.created id q hid).trans_eq hshut.2.symm, by simp [Memory.log]⟩
  | stop p => exact h.of_idle sameMap_requestStop.1 sameMap_requestStop.2 rfl rfl (nil_subset _)
  | stopNext left all i p hp =>
    refine h.of_idle sameMap_requestStop.1 sameMap_requestStop.2 rfl rfl fun q hq => ?_
    rw [flatMap_singleton] at hq
    exact mem_of_mem_eraseIdx hq
  | receive p d ds | park p | dispatch p d =>
    exact h.of_idle ⟨rfl, rfl, rfl, rfl⟩ rfl rfl rfl (nil_subset _)
  | exit p => exact h.of_idle sameMap_exit.1 sameMap_exit.2 rfl rfl (nil_subset _)
  | refuse | unknown | closeAgain | stopLast | join | joinLast | gone | ended =>
    exact h.of_idle .refl rfl rfl rfl (nil_subset _)

/-! ### Channels are closed once -/

/-- **The channels**: that of a subscriber is open until its stop was requested, which it is not
while the subscriber is in the map; `done` is closed by a loop that returns; and nothing went
wrong. -/
structure Sound (m : Memory) : Prop where
  once : ∀ p, (m.sub p).isOpen = !(m.sub p).stopped
  alive : ∀ id p, m.subs.lookup id = some p → (m.sub p).stopped = false
  done : ∀ p, (m.sub p).done = true → (m.sub p).loop = .exited
  closeCh : m.closeCh = m.closed
  faults : m.faults = []

theorem Sound.setSub (h : Sound m) (honce : sub.isOpen = !sub.stopped)
    (halive : ∀ id, m.subs.lookup id = some p → sub.stopped = false)
    (hdone : sub.done = true → sub.loop = .exited) : Sound (m.setSub p sub) := by
  refine ⟨fun q => ?_, fun id q hq => ?_, fun q => ?_, h.closeCh, h.faults⟩ <;>
    simp only [Memory.setSub] <;> split_ifs with hqp
  · exact honce
  · exact h.once q
  · exact halive id (hqp ▸ hq)
  · exact h.alive id q hq
  · exact hdone
  · exact h.done q

theorem Sound.turn (h : Sound m) (hloop : (m.sub p).loop ≠ .exited)
    (hsame : sub.isOpen = (m.sub p).isOpen ∧ sub.stopped = (m.sub p).stopped ∧
      sub.done = (m.sub p).done) : Sound (m.setSub p sub) := by
  obtain ⟨hopen, hstopped, hdone⟩ := hsame
  refine h.setSub (by rw [hopen, hstopped, h.once]) (fun id hid => ?_) fun hd => ?_
  · rw [hstopped, h.alive id p hid]
  · exact absurd (h.done p (hdone ▸ hd)) hloop

theorem Sound.log (h : Sound m) (items : List Item) : Sound (m.log items) :=
  ⟨h.once, h.alive, h.done, h.closeCh, h.faults⟩

theorem Sound.send (h : Sound m) (hp : m.subs.lookup id = some p) : Sound (m.send d p) := by
  have halive := h.alive id p hp
  have hopen : (m.sub p).isOpen = true := by rw [h.once, halive]; rfl
  rw [Memory.send]
  split_ifs with haccepts hclosed hparked hroom
  · exact h
  · rw [hopen] at hclosed
    cases hclosed
  · apply Sound.log
    exact h.turn (by simp [hparked]) ⟨rfl, rfl, rfl⟩
  · apply Sound.log
    exact h.setSub (h.once p) (fun _ _ => halive) (h.done p)
  · exact h

theorem Sound.requestStop (h : Sound m) (hp : ∀ id, m.subs.lookup id ≠ some p) :
    Sound (m.requestStop p) := by
  rw [Memory.requestStop]
  split_ifs with hstopped hopen
  · exact h
  · exact h.setSub rfl (fun id hid => absurd hid (hp id)) (h.done p)
  · rw [h.once p, Bool.not_eq_true'] at hopen
    exact absurd (Bool.eq_false_iff.mpr hstopped) hopen

theorem Sound.exit (h : Sound m) (hp : (m.sub p).loop ≠ .exited) : Sound (m.exit p) := by
  rw [Memory.exit]
  split_ifs with hdone
  · exact absurd (h.done p hdone) hp
  · exact h.setSub (h.once p) (fun id => h.alive id p) fun _ => rfl

/-- **Every section keeps the channels sound.** -/
theorem sound_step (hreg : Registered m (A ++ f :: B)) (h : Sound m) (hstep : Effect m f m' made) :
    Sound m' := by
  cases hstep with
  | publishClosed event | begin event | finish d =>
    exact ⟨h.once, h.alive, h.done, h.closeCh, h.faults⟩
  | send d left i p hp =>
    obtain ⟨id, hid⟩ := mem_left_of_step hreg rfl (mem_of_getElem? hp)
    exact h.send hid
  | subscribe filter id hreaders hopen hid =>
    refine ⟨fun q => ?_, fun id' q hq => ?_, fun q => ?_, h.closeCh, h.faults⟩ <;>
      simp only [Memory.log, Memory.setSub] at * <;> split_ifs with hqp
    · rfl
    · exact h.once q
    · rfl
    · rcases lookup_insert_iff.mp hq with ⟨-, heq⟩ | ⟨-, hq⟩
      · exact absurd heq hqp
      · exact h.alive id' q hq
    · exact fun hdone => absurd hdone (by decide)
    · exact h.done q
  | remove id p hreaders hp =>
    refine ⟨h.once, fun id' q hq => ?_, h.done, h.closeCh, h.faults⟩
    exact h.alive id' q (lookup_erase_iff.mp hq).2
  | close hreaders hopen =>
    have hshut : m.shut = { m with closeCh := true } := by
      rw [Memory.shut, h.closeCh, hopen]
      rfl
    rw [hshut]
    refine ⟨h.once, fun id q hq => ?_, h.done, rfl, h.faults⟩
    exact absurd hq (by simp [Memory.log])
  | stop p =>
    refine h.requestStop (hreg.stops _ mem_subject p ?_).2
    exact mem_singleton_self p
  | stopNext left all i p hp =>
    exact h.requestStop (hreg.stops (.stopping left all)
      mem_subject p (mem_of_getElem? hp)).2
  | receive p d ds hloop | park p hloop => exact h.turn (by simp [hloop]) ⟨rfl, rfl, rfl⟩
  | dispatch p d hloop =>
    apply Sound.log
    exact h.turn (by simp [hloop]) ⟨rfl, rfl, rfl⟩
  | exit p hloop => exact h.exit fun hexited => by simp [hexited] at hloop
  | refuse | unknown | closeAgain | stopLast | join | joinLast | gone | ended => exact h

/-! ### Every run -/

theorem registered_call (h : Registered m F) (c : Call) : Registered m (F ++ [c.frame]) := by
  have hbegin : c.frame.left = none ∧ c.frame.stops = [] := by
    cases c <;> exact ⟨rfl, rfl⟩
  have hleft := held_call c.frame Frame.left F hbegin.1
  refine ⟨hleft ▸ h.readers, hleft ▸ h.present, h.created, h.inj,
    forall_mem_call h.stops ?_, h.empty⟩
  rw [hbegin.2]
  exact forall_mem_nil _

theorem registered_new (bufferSize : ℤ) : Registered (newEventBus bufferSize) [] := by
  refine ⟨rfl, ?_, ?_, ?_, ?_, fun _ => AList.lookup_empty⟩
  · exact forall_mem_nil _
  · exact fun id p hp => absurd hp (Option.some_ne_none p).symm
  · exact fun id id' p hp => absurd hp (Option.some_ne_none p).symm
  · exact forall_mem_nil _

/-- **The map and the channels in every run.** -/
theorem sound_of_reached {bufferSize : ℤ} {s : State Memory Frame}
    (h : eventBus.Reached anyhow (newEventBus bufferSize) s) :
    Registered s.memory s.frames ∧ Sound s.memory := by
  refine h.induction (I := fun m F => Registered m F ∧ Sound m)
    ⟨registered_new bufferSize, ?_⟩ ?_ ?_
  · refine ⟨fun p => rfl, fun id p hp => ?_, fun p hp => ?_, rfl, rfl⟩
    · exact absurd hp (Option.some_ne_none p).symm
    · exact absurd hp Bool.false_ne_true
  · rintro m F c ⟨hreg, hsound⟩
    exact ⟨registered_call hreg c, hsound⟩
  · rintro m A f B o m' made ⟨hreg, hsound⟩ - hstep
    exact ⟨registered_step hreg (effect_of_step hstep),
      sound_step hreg hsound (effect_of_step hstep)⟩

theorem closed_step (hclosed : m.closed = true) (hstep : Effect m f m' made) :
    m'.closed = true := by
  cases hstep with
  | send => rwa [sameMap_send.1.closed]
  | stop | stopNext => rwa [sameMap_requestStop.1.closed]
  | exit => rwa [sameMap_exit.1.closed]
  | close => rfl
  | _ => exact hclosed

/-- **The event bus is memory-safe**: no value was sent on a closed channel and no channel was
closed twice, every subscriber in the map has an open channel, and from the section of a `Close` on
the map is empty for good. -/
theorem bus_safe (bufferSize : ℤ) {s : State Memory Frame}
    (h : eventBus.Reached anyhow (newEventBus bufferSize) s) :
    s.memory.faults = [] ∧
      (∀ id p, s.memory.subs.lookup id = some p → (s.memory.sub p).isOpen = true) ∧
      (s.memory.closed = true → ∀ s', eventBus.system.Reach (Meets anyhow) s s' →
        s'.memory.closed = true ∧ s'.memory.subs = ∅) := by
  obtain ⟨hreg, hsound⟩ := sound_of_reached h
  refine ⟨hsound.faults, fun id p hp => ?_, fun hclosed s' hs' => ?_⟩
  · rw [hsound.once, hsound.alive id p hp]
    rfl
  · obtain ⟨hclosed', hreg'⟩ := reach_induction (C := eventBus) (K := anyhow)
      (I := fun m F => m.closed = true ∧ Registered m F) ⟨hclosed, hreg⟩
      (fun m F c hm => ⟨hm.1, registered_call hm.2 c⟩)
      (fun m A f B o m' made hm _ hstep => ⟨closed_step hm.1 (effect_of_step hstep),
        registered_step hm.2 (effect_of_step hstep)⟩) hs'
    refine ⟨hclosed', AList.ext_iff.mpr (eq_nil_iff_forall_not_mem.mpr fun e he => ?_)⟩
    have hnone := hreg'.empty hclosed' e.1
    rw [lookup_of_mem_entries he] at hnone
    cases hnone

/-- A bus with one subscriber, closed while a `Publish` waits: nothing goes wrong. -/
theorem bus_safe_closed : ∃ s, eventBus.Reached anyhow (newEventBus 0) s ∧
    s.memory.created = 1 ∧ s.memory.faults = [] ∧ s.memory.subs = ∅ := by
  obtain ⟨s, hs, hclosed, hcreated⟩ : ∃ s, eventBus.Reached anyhow (newEventBus 0) s ∧
      s.memory.closed = true ∧ s.memory.created = 1 :=
    Reached.of_run
      [.call (.subscribe {} true), .step 0 (0, {}), .step 0 (1, {}),
        .call (.publish ⟨"boot.started", "", ""⟩), .step 1 (0, {}), .step 1 (0, {}),
        .call .close, .step 1 (0, {}), .step 2 (0, {}), .step 2 (0, {}), .step 0 (1, {}),
        .step 0 (1, {})] (by decide +kernel)
  obtain ⟨hfaults, -, hempty⟩ := bus_safe 0 hs
  exact ⟨s, hs, hcreated, hfaults, (hempty hclosed s .start).2⟩

end Containers.EventBus
