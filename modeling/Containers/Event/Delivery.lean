import Containers.Event.Safety
import Containers.Lib.History

/-!
# Events arrive in order, and once

What the handler of a subscriber is given (`delivery_ordered`): events that match its filter and
were published while it was subscribed, from each `Publish` at most once, and of two `Publish` calls
that do not overlap the first one's event first.

The handler is given a first part of what was sent to its channel, in that order: the rest is in the
hand of the loop or in the buffer (`Queued`). So it is enough to look at the sends. A `Publish`
sends between its beginning and its end, to subscribers that it has found in the map when it began,
and to each once (`Meeting`); whatever is sent is therefore kept apart by the end of one call and
the beginning of the other (`Ordered`, `not_before_of_cut`).

Subscriptions are numbered by a 64-bit counter, so an identifier comes again after 2⁶⁴ of them
(`identifier_reused`).
-/

namespace Containers.EventBus

open Go ThreadSystem Sections List GoMap Memory

variable {m m' : Memory} {A B F made : List Frame} {f : Frame} {H K : List Item} {n p q : ℕ}
  {id : String} {d d' : Delivery} {x : Delivery × List ℕ} {sub : Subscription} {left : List ℕ}

/-! ### Reading the history -/

def Item.sentTo (p : ℕ) : Item → Option Delivery
  | .sent q d => if q = p then some d else none
  | _ => none

def Item.handledBy (p : ℕ) : Item → Option Delivery
  | .handled q d => if q = p then some d else none
  | _ => none

def sentSeq (p : ℕ) (H : List Item) : List Delivery := H.filterMap (Item.sentTo p)

def handledSeq (p : ℕ) (H : List Item) : List Delivery := H.filterMap (Item.handledBy p)

theorem sentTo_eq_some {x : Item} : x.sentTo p = some d ↔ x = .sent p d := by
  cases x with
  | sent q d' =>
    rw [Item.sentTo]
    split_ifs with hqp
    · rw [hqp]
      exact ⟨fun h => by cases h; rfl, fun h => by cases h; rfl⟩
    · exact iff_of_false (fun h => h) fun h => hqp (by cases h; rfl)
  | _ => exact iff_of_false (Option.some_ne_none d).symm fun h => by cases h

theorem handledBy_eq_some {x : Item} : x.handledBy p = some d ↔ x = .handled p d := by
  cases x with
  | handled q d' =>
    rw [Item.handledBy]
    split_ifs with hqp
    · rw [hqp]
      exact ⟨fun h => by cases h; rfl, fun h => by cases h; rfl⟩
    · exact iff_of_false (fun h => h) fun h => hqp (by cases h; rfl)
  | _ => exact iff_of_false (Option.some_ne_none d).symm fun h => by cases h

theorem mem_sentSeq : d ∈ sentSeq p H ↔ .sent p d ∈ H := by
  simp only [sentSeq, mem_filterMap, sentTo_eq_some, exists_eq_right]

theorem mem_handledSeq : d ∈ handledSeq p H ↔ .handled p d ∈ H := by
  simp only [handledSeq, mem_filterMap, handledBy_eq_some, exists_eq_right]

theorem sentSeq_append : sentSeq p (H ++ K) = sentSeq p H ++ sentSeq p K := filterMap_append

theorem handledSeq_append : handledSeq p (H ++ K) = handledSeq p H ++ handledSeq p K :=
  filterMap_append

def NoSend (K : List Item) : Prop := ∀ p d, .sent p d ∉ K

theorem sentSeq_of_noSend (h : NoSend K) : sentSeq p K = [] :=
  eq_nil_iff_forall_not_mem.mpr fun d hd => h p d (mem_sentSeq.mp hd)

/-! ### The order of the sends -/

/-- The subscriber was there when the `Publish` began. -/
def Met (H : List Item) (d : Delivery) (p : ℕ) : Prop :=
  (∃ id, Before (.subscribed p id) (.began d) H) ∧ ¬Before (.removed p) (.began d) H

theorem Met.append (h : Met H d p) (hK : .began d ∉ K) : Met (H ++ K) d p := by
  obtain ⟨⟨id, hid⟩, hremoved⟩ := h
  exact ⟨⟨id, hid.append K⟩, fun hbefore => hremoved (hbefore.of_append hK)⟩

/-- **The sends of a history** in which `n` calls of `Publish` have begun: to whom the call has met,
once to each, and between its beginning and its end. -/
structure Ordered (H : List Item) (n : ℕ) : Prop where
  began : ∀ d, .began d ∈ H → d.number < n
  returned : ∀ k, .returned k ∈ H → k < n
  met : ∀ p d, .sent p d ∈ H → d.number < n ∧ Met H d p
  notAfter : ∀ p d, ¬Before (.returned d.number) (.sent p d) H
  notBefore : ∀ p d, ¬Before (.sent p d) (.began d) H
  once : ∀ p, ((sentSeq p H).map Delivery.number).Nodup

/-- What is not a send changes nothing in the order of the sends, if a `Publish` that begins has a
number of its own. -/
theorem Ordered.append {n' : ℕ} (h : Ordered H n) (hn : n ≤ n')
    (hbegan : ∀ d, .began d ∈ K → n ≤ d.number ∧ d.number < n')
    (hreturned : ∀ k, .returned k ∈ K → k < n') (hsend : NoSend K) : Ordered (H ++ K) n' := by
  have hold : ∀ p d, .sent p d ∈ H ++ K → .sent p d ∈ H := fun p d hmem =>
    (mem_append.mp hmem).resolve_right (hsend p d)
  have hnew : ∀ {d}, d.number < n → .began d ∉ K := fun hlt hmem =>
    absurd (hbegan _ hmem).1 (not_le.mpr hlt)
  refine ⟨fun d hd => ?_, fun k hk => ?_, fun p d hd => ?_, fun p d hbefore => ?_,
    fun p d hbefore => ?_, fun p => ?_⟩
  · exact (mem_append.mp hd).elim (fun hd => (h.began d hd).trans_le hn) fun hd => (hbegan d hd).2
  · exact (mem_append.mp hk).elim (fun hk => (h.returned k hk).trans_le hn) (hreturned k)
  · obtain ⟨hlt, hmet⟩ := h.met p d (hold p d hd)
    exact ⟨hlt.trans_le hn, hmet.append (hnew hlt)⟩
  · exact h.notAfter p d (hbefore.of_append (hsend p d))
  · have hlt := (h.met p d (hold p d hbefore.mem_left)).1
    exact h.notBefore p d (hbefore.of_append (hnew hlt))
  · rw [sentSeq_append, sentSeq_of_noSend hsend, append_nil]
    exact h.once p

theorem Ordered.begin (h : Ordered H n) (hd : d.number = n) : Ordered (H ++ [.began d]) (n + 1) :=
  h.append (Nat.le_succ n) (by simp [hd]) (by simp) (by simp [NoSend])

theorem sentSeq_sent : sentSeq q [.sent p d] = if p = q then [d] else [] := by
  rw [sentSeq, filterMap_cons, Item.sentTo]
  split_ifs <;> rfl

theorem Ordered.send (h : Ordered H n) (hlt : d.number < n) (hmet : Met H d p)
    (hreturned : .returned d.number ∉ H) (hfirst : d.number ∉ (sentSeq p H).map Delivery.number) :
    Ordered (H ++ [.sent p d]) n := by
  have hbegan : ∀ d', .began d' ∉ [Item.sent p d] := by simp
  refine ⟨fun d' hd' => h.began d' (by simpa using hd'),
    fun k hk => h.returned k (by simpa using hk),
    fun q d' hd' => ?_, fun q d' hbefore => ?_, fun q d' hbefore => ?_, fun q => ?_⟩
  · rcases mem_append.mp hd' with hd' | hd'
    · obtain ⟨hlt, hmet⟩ := h.met q d' hd'
      exact ⟨hlt, hmet.append (hbegan d')⟩
    · cases mem_singleton.mp hd'
      exact ⟨hlt, hmet.append (hbegan d)⟩
  · rcases before_concat.mp hbefore with hbefore | ⟨hmem, heq⟩
    · exact h.notAfter q d' hbefore
    · cases heq
      exact hreturned hmem
  · exact h.notBefore q d' (hbefore.of_append (hbegan d'))
  · rw [sentSeq_append, sentSeq_sent, map_append]
    split_ifs with hpq
    · subst hpq
      refine nodup_append.mpr ⟨h.once p, nodup_singleton _, fun k hk k' hk' => ?_⟩
      rw [mem_singleton.mp hk']
      rintro rfl
      exact hfirst hk
    · rw [map_nil, append_nil]
      exact h.once q

/-! ### Publications in flight -/

/-- A `Publish` that holds the read lock, with the subscribers that it has not yet met. -/
def Frame.publication : Frame → Option (Delivery × List ℕ)
  | .publishing d left => some (d, left)
  | _ => none

/-- What is known of a `Publish` in flight: it has not returned, and it has met those that are left
and sent nothing to them. -/
structure InFlight (H : List Item) (n : ℕ) (x : Delivery × List ℕ) : Prop where
  number_lt : x.1.number < n
  returned : .returned x.1.number ∉ H
  nodup : x.2.Nodup
  met : ∀ p ∈ x.2, Met H x.1 p
  first : ∀ p ∈ x.2, x.1.number ∉ (sentSeq p H).map Delivery.number

theorem InFlight.append (h : InFlight H n x) {n' : ℕ} (hn : n ≤ n') (hbegan : .began x.1 ∉ K)
    (hreturned : .returned x.1.number ∉ K) (hsend : ∀ p d, .sent p d ∈ K → d.number ≠ x.1.number) :
    InFlight (H ++ K) n' x := by
  refine ⟨h.number_lt.trans_le hn, fun hmem => ?_, h.nodup, fun p hp => (h.met p hp).append hbegan,
    fun p hp hmem => ?_⟩
  · exact (mem_append.mp hmem).elim h.returned hreturned
  · rw [sentSeq_append, map_append] at hmem
    rcases mem_append.mp hmem with hmem | hmem
    · exact h.first p hp hmem
    · obtain ⟨d, hd, heq⟩ := mem_map.mp hmem
      exact hsend p d (mem_sentSeq.mp hd) heq

/-- **The publications in flight** have numbers of their own. -/
structure Meeting (m : Memory) (F : List Frame) : Prop where
  unique : ((F.filterMap Frame.publication).map fun x => x.1.number).Nodup
  inFlight : ∀ x ∈ F.filterMap Frame.publication, InFlight m.history m.published x

theorem Meeting.of_other (h : Meeting m (A ++ f :: B)) (hf : f.publication = none)
    (hmade : made.filterMap Frame.publication = []) (hpublished : m'.published = m.published)
    (hhistory : m'.history = m.history ++ K) (hbegan : ∀ d, .began d ∉ K)
    (hreturned : ∀ k, .returned k ∉ K) (hsend : NoSend K) : Meeting m' (A ++ (made ++ B)) := by
  have hperm := held_same_perm A B (hmade.trans (by rw [hf]; rfl))
  refine ⟨(hperm.map _).nodup_iff.mpr h.unique, fun x hx => ?_⟩
  rw [hpublished, hhistory]
  exact (h.inFlight x (hperm.mem_iff.mp hx)).append le_rfl (hbegan _) (hreturned _)
    fun p d hmem => absurd hmem (hsend p d)

theorem Meeting.others (h : Meeting m (A ++ f :: B)) (hf : f.publication = some x) :
    InFlight m.history m.published x ∧
      ((((A ++ B).filterMap Frame.publication).map fun x => x.1.number).Nodup ∧
      ∀ y ∈ (A ++ B).filterMap Frame.publication,
        InFlight m.history m.published y ∧ y.1.number ≠ x.1.number) := by
  have hperm := held_perm A B f Frame.publication
  rw [hf] at hperm
  have hnodup := nodup_cons.mp ((hperm.map fun x => x.1.number).nodup_iff.mp h.unique)
  refine ⟨h.inFlight x (hperm.mem_iff.mpr mem_cons_self), hnodup.2, fun y hy => ?_⟩
  refine ⟨h.inFlight y (hperm.mem_iff.mpr (mem_cons_of_mem x hy)), fun heq => ?_⟩
  exact hnodup.1 (mem_map.mpr ⟨y, hy, heq⟩)

/-! ### Queues and lists -/

/-- What a loop has received and not yet given to its handler. -/
def Loop.inHand : Loop → List Delivery
  | .dispatch d => [d]
  | _ => []

/-- What a subscriber was sent and its handler was not yet given. -/
def Subscription.pending (sub : Subscription) : List Delivery := sub.loop.inHand ++ sub.buffer

/-- **The handler is given a first part of what was sent**, and the rest is pending. -/
structure Queued (m : Memory) : Prop where
  accepts : ∀ p d, .sent p d ∈ m.history → (m.sub p).filter.accepts d.event = true
  queue : ∀ p, sentSeq p m.history = handledSeq p m.history ++ (m.sub p).pending
  parked : ∀ p, (m.sub p).loop = .parked → (m.sub p).buffer = []

def identifier (p : ℕ) : String := newSubscriptionID ((p + 1) % 2 ^ 64)

/-- **The subscriptions** are those that were written down, and who was removed is not in the
map. -/
structure Listed (m : Memory) : Prop where
  subscribed : ∀ p id, .subscribed p id ∈ m.history ↔ p < m.created ∧ id = identifier p
  nextID : m.nextID = m.created % 2 ^ 64
  removed : ∀ p, .removed p ∈ m.history → p < m.created ∧ ∀ id, m.subs.lookup id ≠ some p

/-- What is written down about the queue of a subscriber. -/
def Item.ofQueue : Item → Bool
  | .sent _ _ | .handled _ _ => true
  | _ => false

theorem Queued.of_same (h : Queued m) (hhistory : m'.history = m.history ++ K)
    (hK : ∀ x ∈ K, x.ofQueue = false) (hfilter : ∀ p, (m'.sub p).filter = (m.sub p).filter)
    (hpending : ∀ p, (m'.sub p).pending = (m.sub p).pending)
    (hparked : ∀ p, (m'.sub p).loop = .parked → (m'.sub p).buffer = []) : Queued m' := by
  have hnone : ∀ {x : Item}, x.ofQueue = true → x ∉ K := fun hx hmem => by
    rw [hK _ hmem] at hx
    cases hx
  have hsend : NoSend K := fun p d => hnone rfl
  refine ⟨fun p d hd => ?_, fun p => ?_, hparked⟩
  · rw [hhistory] at hd
    rw [hfilter]
    exact h.accepts p d ((mem_append.mp hd).resolve_right (hsend p d))
  · have hhandled : handledSeq p K = [] :=
      eq_nil_iff_forall_not_mem.mpr fun d hd => hnone rfl (mem_handledSeq.mp hd)
    rw [hhistory, sentSeq_append, handledSeq_append, sentSeq_of_noSend hsend, hhandled, hpending,
      append_nil, append_nil]
    exact h.queue p

theorem Queued.of_work (h : Queued m) (hhistory : m'.history = m.history ++ K)
    (hsub : m'.sub = (m.setSub p sub).sub) (hfilter : sub.filter = (m.sub p).filter)
    (haccepts : ∀ d, .sent p d ∈ K → (m.sub p).filter.accepts d.event = true)
    (hother : ∀ q ≠ p, sentSeq q K = [] ∧ handledSeq q K = [])
    (hqueue : sentSeq p m.history ++ sentSeq p K =
      handledSeq p m.history ++ handledSeq p K ++ sub.pending)
    (hparked : sub.loop = .parked → sub.buffer = []) : Queued m' := by
  have hget : ∀ q, m'.sub q = if q = p then sub else m.sub q := fun q => by rw [hsub]; rfl
  refine ⟨fun q d hd => ?_, fun q => ?_, fun q => ?_⟩ <;> rw [hget]
  · rw [hhistory] at hd
    split_ifs with hqp
    · rw [hfilter]
      rcases mem_append.mp hd with hd | hd
      · exact h.accepts p d (hqp ▸ hd)
      · exact haccepts d (hqp ▸ hd)
    · refine h.accepts q d ((mem_append.mp hd).resolve_right fun hd => ?_)
      have hmem := mem_sentSeq.mpr hd
      rw [(hother q hqp).1] at hmem
      cases hmem
  · rw [hhistory, sentSeq_append, handledSeq_append]
    split_ifs with hqp
    · rw [hqp]
      exact hqueue
    · rw [(hother q hqp).1, (hother q hqp).2, append_nil, append_nil]
      exact h.queue q
  · split_ifs with hqp
    · exact hparked
    · exact h.parked q

/-! ### Each section keeps the order -/

/-- **What a send does**: nothing, or the event is one more that is pending. -/
theorem send_cases (hparked : (m.sub p).loop = .parked → (m.sub p).buffer = []) :
    (m.send d p).history = m.history ∧ (m.send d p).sub = m.sub ∨
      (m.send d p).history = m.history ++ [.sent p d] ∧
        (m.sub p).filter.accepts d.event = true ∧
        ∃ sub : Subscription, (m.send d p).sub = (m.setSub p sub).sub ∧
          sub.filter = (m.sub p).filter ∧ sub.pending = (m.sub p).pending ++ [d] ∧
          (sub.loop = .parked → sub.buffer = []) := by
  rw [send]
  split_ifs with haccepts hclosed hloop hroom
  · exact .inl ⟨rfl, rfl⟩
  · exact .inl ⟨rfl, rfl⟩
  · refine .inr ⟨rfl, Bool.not_eq_false _ ▸ haccepts, _, rfl, rfl, ?_, fun h => by cases h⟩
    rw [Subscription.pending, Subscription.pending, hloop, hparked hloop]
    rfl
  · refine .inr ⟨rfl, Bool.not_eq_false _ ▸ haccepts, _, rfl, rfl, ?_, fun h => absurd h hloop⟩
    exact (append_assoc _ _ _).symm
  · exact .inl ⟨rfl, rfl⟩

theorem published_send : (m.send d p).published = m.published := by
  rw [send]
  split_ifs <;> rfl

theorem requestStop_same : (m.requestStop p).history = m.history ∧
    (m.requestStop p).published = m.published := by
  rw [requestStop]
  split_ifs <;> exact ⟨rfl, rfl⟩

theorem exit_same : (m.exit p).history = m.history ∧ (m.exit p).published = m.published := by
  rw [exit]
  split_ifs <;> exact ⟨rfl, rfl⟩

theorem shut_same : m.shut.history = m.history ∧ m.shut.published = m.published ∧
    m.shut.sub = m.sub ∧ m.shut.created = m.created ∧ m.shut.nextID = m.nextID := by
  rw [shut]
  split_ifs <;> exact ⟨rfl, rfl, rfl, rfl, rfl⟩

/-- What is written down about a `Publish`. -/
def Item.ofPublish : Item → Bool
  | .began _ | .returned _ | .sent _ _ => true
  | _ => false

/-- What is written down outside of a `Publish`. -/
def Quiet (K : List Item) : Prop := ∀ x ∈ K, x.ofPublish = false

theorem Quiet.not_mem (h : Quiet K) {x : Item} (hx : x.ofPublish = true) : x ∉ K := fun hmem => by
  rw [h x hmem] at hx
  cases hx

/-- **A section that is not one of a `Publish`** writes nothing down about one. -/
theorem quiet_of_effect (hstep : Effect m f m' made) (hf : f.publication = none)
    (hpublish : ∀ event, f ≠ .publish event) :
    made.filterMap Frame.publication = [] ∧ m'.published = m.published ∧
      ∃ K, m'.history = m.history ++ K ∧ Quiet K := by
  have hsame : m'.history = m.history → ∃ K, m'.history = m.history ++ K ∧ Quiet K := fun h =>
    ⟨[], by rw [h, append_nil], forall_mem_nil _⟩
  cases hstep with
  | publishClosed event | begin event => exact absurd rfl (hpublish event)
  | send | finish => cases hf
  | subscribe | remove | dispatch => exact ⟨rfl, rfl, _, rfl, forall_mem_singleton.mpr rfl⟩
  | close =>
    exact ⟨rfl, shut_same.2.1, _, by rw [log, shut_same.1], by simp [Quiet, Item.ofPublish]⟩
  | stop | stopNext => exact ⟨rfl, requestStop_same.2, hsame requestStop_same.1⟩
  | exit => exact ⟨rfl, exit_same.2, hsame exit_same.1⟩
  | _ => exact ⟨rfl, rfl, hsame rfl⟩

theorem nodup_subscribers (h : Registered m F) : m.subscribers.Nodup := by
  refine Nodup.map_on (fun e he e' he' heq => ?_) m.subs.nodupKeys.nodup
  have hid := h.inj e.1 e'.1 e.2 (lookup_of_mem_entries he)
    (heq ▸ lookup_of_mem_entries he')
  exact Sigma.ext hid (heq_of_eq heq)

theorem met_of_subscriber (hreg : Registered m F) (hlist : Listed m)
    (h : Ordered m.history m.published) (hd : d.number = m.published) (hp : p ∈ m.subscribers) :
    Met (m.history ++ [.began d]) d p := by
  obtain ⟨id, hid⟩ := mem_subscribers hp
  refine ⟨⟨identifier p, before_concat.mpr (.inr ⟨?_, rfl⟩)⟩, fun hbefore => ?_⟩
  · exact (hlist.subscribed p _).mpr ⟨hreg.created id p hid, rfl⟩
  · rcases before_concat.mp hbefore with hbefore | ⟨hmem, -⟩
    · exact absurd hd (h.began d hbefore.mem_right).ne
    · exact (hlist.removed p hmem).2 id hid

theorem not_mem_sentSeq_of_le (h : Ordered H n) {k : ℕ} (hk : n ≤ k) :
    k ∉ (sentSeq p H).map Delivery.number := by
  intro hmem
  obtain ⟨d, hd, rfl⟩ := mem_map.mp hmem
  exact absurd (h.met p d (mem_sentSeq.mp hd)).1 (not_lt.mpr hk)

theorem inFlight_begin (hreg : Registered m F) (hlist : Listed m)
    (h : Ordered m.history m.published) (hd : d.number = m.published) :
    InFlight (m.history ++ [.began d]) (m.published + 1) (d, m.subscribers) := by
  refine ⟨hd.le.trans_lt (Nat.lt_succ_self _), fun hmem => ?_, nodup_subscribers hreg,
    fun p => met_of_subscriber hreg hlist h hd, fun p hp hmem => ?_⟩
  · exact absurd hd (h.returned _ (by simpa using hmem)).ne
  · have hsend : NoSend [.began d] := by simp [NoSend]
    rw [sentSeq_append, sentSeq_of_noSend hsend, append_nil] at hmem
    exact not_mem_sentSeq_of_le h hd.ge hmem

theorem InFlight.send {i : ℕ} (h : InFlight H n (d, left)) (hp : left[i]? = some p) :
    InFlight (H ++ [.sent p d]) n (d, left.eraseIdx i) := by
  have hsub : ∀ q ∈ left.eraseIdx i, q ∈ left ∧ q ≠ p := by
    intro q hq
    refine ⟨mem_of_mem_eraseIdx hq, ?_⟩
    rintro rfl
    obtain ⟨hi, rfl⟩ := List.getElem?_eq_some_iff.mp hp
    rw [← Nodup.erase_getElem h.nodup i hi] at hq
    exact h.nodup.not_mem_erase hq
  refine ⟨h.number_lt, fun hmem => h.returned (by simpa using hmem), h.nodup.eraseIdx i,
    fun q hq => (h.met q (hsub q hq).1).append (by simp), fun q hq hmem => ?_⟩
  rw [sentSeq_append, sentSeq_sent, if_neg (hsub q hq).2.symm, append_nil] at hmem
  exact h.first q (hsub q hq).1 hmem

theorem InFlight.skip (h : InFlight H n (d, left)) (i : ℕ) : InFlight H n (d, left.eraseIdx i) :=
  ⟨h.number_lt, h.returned, h.nodup.eraseIdx i, fun q hq => h.met q (mem_of_mem_eraseIdx hq),
    fun q hq => h.first q (mem_of_mem_eraseIdx hq)⟩

theorem Ordered.finish (h : Ordered H n) {k : ℕ} (hk : k < n) : Ordered (H ++ [.returned k]) n :=
  h.append le_rfl (by simp) (by simp [hk]) (by simp [NoSend])

/-- **Every section keeps the order of the sends.** -/
theorem ordered_step (hqueued : Queued m) (hmeet : Meeting m (A ++ f :: B))
    (h : Ordered m.history m.published) (hstep : Effect m f m' made) :
    Ordered m'.history m'.published := by
  cases f with
  | publish event =>
    cases hstep with
    | publishClosed _ hclosed =>
      have hbegun : Ordered (m.history ++ [.began ⟨m.published, event⟩]) (m.published + 1) :=
        h.begin rfl
      have hended := hbegun.finish (Nat.lt_succ_self m.published)
      rwa [append_assoc] at hended
    | begin _ hopen => exact h.begin rfl
  | publishing d left =>
    obtain ⟨hinFlight, -⟩ := hmeet.others rfl
    cases hstep with
    | send _ _ i p hp =>
      have hleft := mem_of_getElem? hp
      rcases send_cases (hqueued.parked p) with ⟨hhistory, -⟩ | ⟨hhistory, -, -⟩
      · rw [hhistory, published_send]
        exact h
      · rw [hhistory, published_send]
        exact h.send hinFlight.number_lt (hinFlight.met p hleft) hinFlight.returned
          (hinFlight.first p hleft)
    | finish => exact h.finish hinFlight.number_lt
  | _ =>
    obtain ⟨-, hpublished, K, hhistory, hquiet⟩ :=
      quiet_of_effect hstep rfl fun event heq => by cases heq
    rw [hpublished, hhistory]
    exact h.append le_rfl (fun d hd => absurd hd (hquiet.not_mem rfl))
      (fun k hk => absurd hk (hquiet.not_mem rfl))
      fun p d => hquiet.not_mem rfl

/-- **Every section keeps the publications in flight.** -/
theorem meeting_step (hreg : Registered m (A ++ f :: B)) (hqueued : Queued m) (hlist : Listed m)
    (hordered : Ordered m.history m.published) (h : Meeting m (A ++ f :: B))
    (hstep : Effect m f m' made) : Meeting m' (A ++ (made ++ B)) := by
  cases f with
  | publish event =>
    have hbefore := held_perm A B (.publish event) Frame.publication
    have hafter := held_made_perm A B made Frame.publication
    have hold : ∀ x ∈ (A ++ B).filterMap Frame.publication, InFlight m.history m.published x :=
      fun x hx => h.inFlight x (hbefore.mem_iff.mpr hx)
    have hunique := (hbefore.map fun x => x.1.number).nodup_iff.mp h.unique
    -- a publication in flight has an older number
    have hbegan : ∀ x ∈ (A ++ B).filterMap Frame.publication, x.1 ≠ ⟨m.published, event⟩ := by
      intro x hx heq
      have hlt := (hold x hx).number_lt
      rw [heq] at hlt
      exact absurd hlt (lt_irrefl _)
    cases hstep with
    | publishClosed _ hclosed =>
      refine ⟨(hafter.map _).nodup_iff.mpr hunique, fun x hx => ?_⟩
      have hx := hafter.mem_iff.mp hx
      exact (hold x hx).append (Nat.le_succ _) (by simp [hbegan x hx])
        (by simp [(hold x hx).number_lt.ne]) (by simp)
    | begin _ hopen =>
      refine ⟨(hafter.map _).nodup_iff.mpr (nodup_cons.mpr ⟨fun hmem => ?_, hunique⟩),
        fun x hx => ?_⟩
      · obtain ⟨x, hx, heq⟩ := mem_map.mp hmem
        exact absurd heq (hold x hx).number_lt.ne
      · rcases mem_cons.mp (hafter.mem_iff.mp hx) with rfl | hx
        · exact inFlight_begin hreg hlist hordered rfl
        · exact (hold x hx).append (Nat.le_succ _) (by simp [hbegan x hx]) (by simp) (by simp)
  | publishing d left =>
    obtain ⟨hinFlight, hunique, hothers⟩ := h.others rfl
    have hafter := held_made_perm A B made Frame.publication
    cases hstep with
    | send _ _ i p hp =>
      refine ⟨(hafter.map _).nodup_iff.mpr (nodup_cons.mpr ⟨fun hmem => ?_, hunique⟩), ?_⟩
      · obtain ⟨x, hx, heq⟩ := mem_map.mp hmem
        exact (hothers x hx).2 heq
      · rw [published_send]
        rcases send_cases (hqueued.parked p) with ⟨hhistory, -⟩ | ⟨hhistory, -, -⟩ <;>
          rw [hhistory] <;> intro x hx <;>
          rcases mem_cons.mp (hafter.mem_iff.mp hx) with rfl | hx
        · exact hinFlight.skip i
        · exact (hothers x hx).1
        · exact hinFlight.send hp
        · obtain ⟨hx, hne⟩ := hothers x hx
          exact hx.append le_rfl (by simp) (by simp) (by simp [hne.symm])
    | finish =>
      refine ⟨(hafter.map _).nodup_iff.mpr hunique, fun x hx => ?_⟩
      obtain ⟨hx, hne⟩ := hothers x (hafter.mem_iff.mp hx)
      exact hx.append le_rfl (by simp) (by simp [hne]) (by simp)
  | _ =>
    obtain ⟨hmade, hpublished, K, hhistory, hquiet⟩ :=
      quiet_of_effect hstep rfl fun event heq => by cases heq
    exact h.of_other rfl hmade hpublished hhistory (fun d => hquiet.not_mem rfl)
      (fun k => hquiet.not_mem rfl) fun p d => hquiet.not_mem rfl

theorem pending_of_loop (h : sub.loop = .select ∨ sub.loop = .parked) :
    sub.pending = sub.buffer := by
  rcases h with h | h <;> rw [Subscription.pending, h] <;> rfl

theorem requestStop_sub (q : ℕ) : ((m.requestStop p).sub q).filter = (m.sub q).filter ∧
    ((m.requestStop p).sub q).loop = (m.sub q).loop ∧
    ((m.requestStop p).sub q).buffer = (m.sub q).buffer := by
  rw [requestStop]
  split_ifs
  · exact ⟨rfl, rfl, rfl⟩
  all_goals
    simp only [fault, setSub]
    split_ifs with hqp
    · rw [hqp]
      exact ⟨rfl, rfl, rfl⟩
    · exact ⟨rfl, rfl, rfl⟩

theorem queued_requestStop (h : Queued m) : Queued (m.requestStop p) := by
  exact h.of_same (K := []) (by rw [requestStop_same.1, append_nil]) (forall_mem_nil _)
    (fun q => (requestStop_sub q).1) (fun q => by simp [Subscription.pending, requestStop_sub])
    fun q => by simpa [requestStop_sub] using h.parked q

theorem exit_sub : ∃ sub : Subscription, (m.exit p).sub = (m.setSub p sub).sub ∧
    sub.filter = (m.sub p).filter ∧ sub.loop = .exited ∧ sub.buffer = (m.sub p).buffer := by
  rw [exit]
  split_ifs
  · exact ⟨_, rfl, rfl, rfl, rfl⟩
  · exact ⟨_, rfl, rfl, rfl, rfl⟩

/-- **Every section keeps the queues.** -/
theorem queued_step (hlist : Listed m) (hordered : Ordered m.history m.published) (h : Queued m)
    (hstep : Effect m f m' made) : Queued m' := by
  -- a section that changes no subscription and writes nothing down about the queues
  have hsame : ∀ {m' : Memory} {K : List Item}, m'.sub = m.sub → m'.history = m.history ++ K →
      (∀ x ∈ K, x.ofQueue = false) → Queued m' := by
    intro m' K hsub hhistory hK
    refine h.of_same hhistory hK ?_ ?_ ?_ <;> rw [hsub]
    · exact fun _ => rfl
    · exact fun _ => rfl
    · exact h.parked
  -- a section that moves the queue of one subscriber and writes nothing down
  have hmove : ∀ {p : ℕ} {m' : Memory} (sub : Subscription), m'.history = m.history →
      m'.sub = (m.setSub p sub).sub → sub.filter = (m.sub p).filter →
      sub.pending = (m.sub p).pending → (sub.loop = .parked → sub.buffer = []) → Queued m' := by
    intro p m' sub hhistory hsub hfilter hpending hparked
    refine h.of_work (K := []) (by rw [hhistory, append_nil]) hsub hfilter
      (fun d hd => absurd hd not_mem_nil) (fun q _ => ⟨rfl, rfl⟩) ?_ hparked
    rw [hpending, h.queue p]
    simp [sentSeq, handledSeq]
  cases hstep with
  | publishClosed event => exact hsame rfl rfl (by simp [Item.ofQueue])
  | begin event | finish d | remove id p => exact hsame rfl rfl (forall_mem_singleton.mpr rfl)
  | close =>
    exact hsame shut_same.2.2.1 (by rw [log, shut_same.1]) (by simp [Item.ofQueue])
  | send d left i p hp =>
    rcases send_cases (h.parked p) with ⟨hhistory, hsub⟩ |
      ⟨hhistory, haccepts, sub, hsub, hfilter, hpending, hparked⟩
    · exact hsame (K := []) hsub (by rw [hhistory, append_nil]) (forall_mem_nil _)
    · refine h.of_work hhistory hsub hfilter (by simp [haccepts]) (fun q hq => ?_) ?_ hparked
      · rw [sentSeq_sent, if_neg hq.symm]
        exact ⟨rfl, rfl⟩
      · rw [sentSeq_sent, hpending, h.queue p]
        simp [handledSeq, Item.handledBy]
  | subscribe filter id hreaders hopen hid =>
    -- nothing was sent to the new subscription yet
    have hnone : ∀ d, .sent m.created d ∉ m.history := by
      intro d hd
      obtain ⟨⟨id', hid'⟩, -⟩ := (hordered.met _ d hd).2
      exact absurd ((hlist.subscribed _ id').mp hid'.mem_left).1 (lt_irrefl _)
    have hsent : sentSeq m.created m.history = [] :=
      eq_nil_iff_forall_not_mem.mpr fun d hd => hnone d (mem_sentSeq.mp hd)
    have hhandled : handledSeq m.created m.history = [] := by
      have hqueue := h.queue m.created
      rw [hsent] at hqueue
      exact (append_eq_nil_iff.mp hqueue.symm).1
    have hitem : ∀ q, sentSeq q [Item.subscribed m.created id] = [] ∧
        handledSeq q [Item.subscribed m.created id] = [] := fun q => ⟨rfl, rfl⟩
    refine ⟨fun q d hd => ?_, fun q => ?_, fun q => ?_⟩
    · have hd : .sent q d ∈ m.history := by simpa [log, setSub] using hd
      have hq : q ≠ m.created := fun hq => hnone d (hq ▸ hd)
      simp only [log, setSub, if_neg hq]
      exact h.accepts q d hd
    · simp only [log, setSub, sentSeq_append, handledSeq_append, hitem,
        append_nil]
      split_ifs with hq
      · rw [hq, hsent, hhandled]
        rfl
      · exact h.queue q
    · simp only [log, setSub]
      split_ifs with hq
      · exact fun _ => rfl
      · exact h.parked q
  | stop p | stopNext left all i p hp => exact queued_requestStop h
  | receive p d ds hloop hbuffer =>
    refine hmove _ rfl rfl rfl ?_ fun heq => by cases heq
    rw [pending_of_loop (.inl hloop), hbuffer]
    rfl
  | park p hloop hbuffer =>
    refine hmove _ rfl rfl rfl ?_ fun _ => hbuffer
    rw [pending_of_loop (.inl hloop), pending_of_loop (.inr rfl)]
  | exit p hloop =>
    obtain ⟨sub, hsub, hfilter, hexited, hbuffer⟩ := exit_sub (m := m) (p := p)
    refine hmove sub exit_same.1 hsub hfilter ?_ fun heq => by rw [hexited] at heq; cases heq
    rw [pending_of_loop hloop, Subscription.pending, hexited, hbuffer]
    rfl
  | dispatch p d hloop =>
    refine h.of_work rfl rfl rfl (by simp) (fun q hq => ?_) ?_ fun heq => by cases heq
    · simp [sentSeq, handledSeq, Item.sentTo, Item.handledBy, hq.symm]
    · rw [h.queue p, Subscription.pending, hloop]
      simp [sentSeq, handledSeq, Item.sentTo, Item.handledBy, Loop.inHand, Subscription.pending]
  | refuse | unknown | closeAgain | stopLast | join | joinLast | gone | ended => exact h

def Item.ofList : Item → Bool
  | .subscribed _ _ | .removed _ => true
  | _ => false

theorem Listed.of_same (h : Listed m) (hmap : SameMap m m') (hhistory : m'.history = m.history ++ K)
    (hK : ∀ x ∈ K, x.ofList = false) : Listed m' := by
  have hold : ∀ {x : Item}, x.ofList = true → (x ∈ m'.history ↔ x ∈ m.history) := fun {x} hx => by
    rw [hhistory, mem_append]
    refine or_iff_left fun hmem => ?_
    rw [hK x hmem] at hx
    cases hx
  refine ⟨fun p id => ?_, ?_, fun p hp => ?_⟩
  · rw [hold rfl, hmap.created]
    exact h.subscribed p id
  · rw [hmap.nextID, hmap.created]
    exact h.nextID
  · rw [hmap.created, hmap.subs]
    exact h.removed p ((hold rfl).mp hp)

theorem listed_subscribe {filter : EventFilter} (h : Listed m)
    (hid : id = newSubscriptionID ((m.nextID + 1) % 2 ^ 64)) :
    Listed (({ m with
      nextID := (m.nextID + 1) % 2 ^ 64
      created := m.created + 1
      subs := m.subs.insert id m.created }.setSub m.created { filter := filter }).log
        [.subscribed m.created id]) := by
  have hid : id = identifier m.created := by
    rw [hid, h.nextID, Nat.mod_add_mod]
    rfl
  refine ⟨fun p id' => ?_, ?_, fun p hp => ?_⟩
  · refine mem_append.trans ((or_congr (h.subscribed p id') mem_singleton).trans ?_)
    constructor
    · rintro (⟨hlt, rfl⟩ | heq)
      · exact ⟨Nat.lt_succ_of_lt hlt, rfl⟩
      · cases heq
        exact ⟨Nat.lt_succ_self _, hid⟩
    · rintro ⟨hlt, rfl⟩
      rcases Nat.lt_succ_iff_lt_or_eq.mp hlt with hlt | rfl
      · exact .inl ⟨hlt, rfl⟩
      · exact .inr (by rw [hid])
  · exact (congrArg (fun k => (k + 1) % 2 ^ 64) h.nextID).trans (Nat.mod_add_mod _ _ _)
  · have hp : .removed p ∈ m.history := by simpa [log, setSub] using hp
    obtain ⟨hlt, hgone⟩ := h.removed p hp
    refine ⟨Nat.lt_succ_of_lt hlt, fun id' hid' => ?_⟩
    rcases lookup_insert_iff.mp hid' with ⟨-, hcreated⟩ | ⟨-, hid'⟩
    · exact absurd hcreated hlt.ne
    · exact hgone id' hid'

theorem Listed.remove (h : Listed m) (gone : List ℕ) (hcreated : m'.created = m.created)
    (hnextID : m'.nextID = m.nextID) (hhistory : m'.history = m.history ++ gone.map .removed)
    (hlookup : ∀ id p, m'.subs.lookup id = some p → m.subs.lookup id = some p)
    (hgone : ∀ p ∈ gone, p < m.created ∧ ∀ id, m'.subs.lookup id ≠ some p) : Listed m' := by
  refine ⟨fun p id => ?_, ?_, fun p hp => ?_⟩
  · rw [hhistory, mem_append, hcreated, ← h.subscribed p id]
    refine or_iff_left fun hmem => ?_
    obtain ⟨q, -, heq⟩ := mem_map.mp hmem
    cases heq
  · rw [hnextID, hcreated]
    exact h.nextID
  · rw [hcreated]
    rw [hhistory] at hp
    rcases mem_append.mp hp with hp | hp
    · obtain ⟨hlt, hout⟩ := h.removed p hp
      exact ⟨hlt, fun id hid => hout id (hlookup id p hid)⟩
    · obtain ⟨q, hq, heq⟩ := mem_map.mp hp
      cases heq
      exact hgone p hq

/-- **Every section keeps the lists.** -/
theorem listed_step (hreg : Registered m (A ++ f :: B)) (hqueued : Queued m) (h : Listed m)
    (hstep : Effect m f m' made) : Listed m' := by
  have hquiet : ∀ {m' : Memory}, SameMap m m' → m'.history = m.history → Listed m' :=
    fun hmap hhistory => h.of_same (K := []) hmap (by rw [hhistory, append_nil]) (forall_mem_nil _)
  have hone : ∀ {m' : Memory} {x : Item}, SameMap m m' → m'.history = m.history ++ [x] →
      x.ofList = false → Listed m' := fun hmap hhistory hx =>
    h.of_same hmap hhistory (forall_mem_singleton.mpr hx)
  cases hstep with
  | publishClosed event => exact h.of_same ⟨rfl, rfl, rfl, rfl⟩ rfl (by simp [Item.ofList])
  | begin | finish | dispatch => exact hone ⟨rfl, rfl, rfl, rfl⟩ rfl rfl
  | send d left i p hp =>
    rcases send_cases (hqueued.parked p) with ⟨hhistory, -⟩ | ⟨hhistory, -, -⟩
    · exact hquiet sameMap_send.1 hhistory
    · exact hone sameMap_send.1 hhistory rfl
  | subscribe filter id hreaders hopen hid => exact listed_subscribe h hid
  | remove id p hreaders hp =>
    exact h.remove [p] rfl rfl rfl (fun id' q hq => (lookup_erase_iff.mp hq).2)
      (forall_mem_singleton.mpr ⟨hreg.created id p hp,
        ((registered_step hreg (.remove id p hreaders hp)).stops (.stop p) mem_subject p
          mem_cons_self).2⟩)
  | close hreaders hopen =>
    refine h.remove m.subscribers shut_same.2.2.2.1 shut_same.2.2.2.2
      (by rw [log, shut_same.1]) (by simp [log]) fun p hp => ?_
    obtain ⟨id, hid⟩ := mem_subscribers hp
    exact ⟨hreg.created id p hid, by simp [log]⟩
  | stop | stopNext => exact hquiet sameMap_requestStop.1 requestStop_same.1
  | receive | park => exact hquiet ⟨rfl, rfl, rfl, rfl⟩ rfl
  | exit => exact hquiet sameMap_exit.1 exit_same.1
  | refuse | unknown | closeAgain | stopLast | join | joinLast | gone | ended => exact h

/-! ### Every run -/

/-- What is kept by every section. -/
structure Kept (m : Memory) (F : List Frame) : Prop where
  registered : Registered m F
  ordered : Ordered m.history m.published
  meeting : Meeting m F
  queued : Queued m
  listed : Listed m

theorem kept_step (h : Kept m (A ++ f :: B)) (hstep : Effect m f m' made) :
    Kept m' (A ++ (made ++ B)) :=
  ⟨registered_step h.registered hstep, ordered_step h.queued h.meeting h.ordered hstep,
    meeting_step h.registered h.queued h.listed h.ordered h.meeting hstep,
    queued_step h.listed h.ordered h.queued hstep, listed_step h.registered h.queued h.listed hstep⟩

theorem kept_new (bufferSize : ℤ) : Kept (newEventBus bufferSize) [] := by
  have hempty : ∀ x : Item, x ∉ (newEventBus bufferSize).history := fun _ => not_mem_nil
  have hordered : Ordered [] 0 := ⟨by simp, by simp, by simp, fun _ _ => not_before_nil,
    fun _ _ => not_before_nil, fun _ => nodup_nil⟩
  refine ⟨registered_new bufferSize, hordered, ⟨nodup_nil, forall_mem_nil _⟩,
    ⟨fun p d hd => absurd hd (hempty _), fun p => rfl, fun p _ => rfl⟩,
    fun p id => iff_of_false (hempty _) fun h => Nat.not_lt_zero p h.1, rfl,
    fun p hp => absurd hp (hempty _)⟩

theorem kept_of_reached {bufferSize : ℤ} {s : State Memory Frame}
    (h : eventBus.Reached anyhow (newEventBus bufferSize) s) :
    Kept s.memory s.frames := by
  refine h.induction (kept_new bufferSize) (fun m F c h => ?_)
    fun m A f B o m' made h _ hstep => kept_step h (effect_of_step hstep)
  have hbegin := held_call c.frame Frame.publication F (by cases c <;> rfl)
  exact ⟨registered_call h.registered c, h.ordered, ⟨hbegin ▸ h.meeting.unique,
    hbegin ▸ h.meeting.inFlight⟩, h.queued, h.listed⟩

theorem Kept.handled_sent (h : Kept m F) : handledSeq p m.history <+: sentSeq p m.history :=
  ⟨_, (h.queued.queue p).symm⟩

theorem identifier_inj (hp : p < 2 ^ 64) (hq : q < 2 ^ 64) (h : identifier p = identifier q) :
    p = q := by
  have hnumber := toString_nat_inj.mp ((String.append_right_inj _).mp h)
  omega

/-- **Delivery is ordered and free of duplicates**: what a handler is given matches the filter of
its subscriber, and the `Publish` began while it was subscribed; each `Publish` reaches it at most
once; of two calls of which one returned before the other began, the second one's event is not seen
before the first one's; and the first 2⁶⁴ subscriptions have identifiers of their own. -/
theorem delivery_ordered (bufferSize : ℤ) {s : State Memory Frame}
    (h : eventBus.Reached anyhow (newEventBus bufferSize) s) :
    (∀ p d, .handled p d ∈ s.memory.history → (s.memory.sub p).filter.accepts d.event = true ∧
      (∃ id, Before (.subscribed p id) (.began d) s.memory.history) ∧
      ¬Before (.removed p) (.began d) s.memory.history) ∧
    (∀ p, ((handledSeq p s.memory.history).map Delivery.number).Nodup) ∧
    (∀ p d d', Before (.returned d.number) (.began d') s.memory.history →
      ¬Before (.handled p d') (.handled p d) s.memory.history) ∧
    (∀ p p' id, .subscribed p id ∈ s.memory.history → .subscribed p' id ∈ s.memory.history →
      s.memory.created ≤ 2 ^ 64 → p = p') := by
  have hkept := kept_of_reached h
  refine ⟨fun p d hd => ?_, fun p => ?_, fun p d d' hcut hbefore => ?_,
    fun p p' id hp hp' hle => ?_⟩
  · have hsent := mem_sentSeq.mp (hkept.handled_sent.subset (mem_handledSeq.mpr hd))
    exact ⟨hkept.queued.accepts p d hsent, (hkept.ordered.met p d hsent).2⟩
  · exact (hkept.ordered.once p).sublist (hkept.handled_sent.sublist.map _)
  · -- the order of the handler is that of the sends, which the two calls keep apart
    have hhandled : Before d' d (handledSeq p s.memory.history) :=
      before_filterMap.mpr ⟨_, _, handledBy_eq_some.mpr rfl, handledBy_eq_some.mpr rfl, hbefore⟩
    obtain ⟨x, y, hx, hy, hsent⟩ := before_filterMap.mp (hhandled.trans hkept.handled_sent.sublist)
    rw [sentTo_eq_some.mp hx, sentTo_eq_some.mp hy] at hsent
    exact not_before_of_cut hcut (hkept.ordered.notAfter p d) (hkept.ordered.notBefore p d') hsent
  · obtain ⟨hlt, hid⟩ := (hkept.listed.subscribed p id).mp hp
    obtain ⟨hlt', hid'⟩ := (hkept.listed.subscribed p' id).mp hp'
    exact identifier_inj (hlt.trans_le hle) (hlt'.trans_le hle) (hid.symm.trans hid')

/-- A subscriber parks; two events are published, the first of which is handed to its loop and the
second buffered; and both are handled. -/
def twoEvents : List (Action (ℕ × Answer) Call) :=
  [.call (.subscribe {} true), .step 0 (0, {}), .step 0 (1, {}),
    .call (.publish ⟨"boot.started", "", ""⟩), .step 1 (0, {}), .step 1 (0, {}), .step 1 (0, {}),
    .call (.publish ⟨"boot.completed", "", ""⟩), .step 2 (0, {}), .step 2 (0, {}), .step 2 (0, {}),
    .step 0 (1, {}), .step 0 (1, {}), .step 0 (1, {})]

/-- Two events that are published one after the other, and handled. -/
theorem delivery_ordered_two : ∃ s, eventBus.Reached anyhow (newEventBus 2) s ∧
    handledSeq 0 s.memory.history =
    [⟨0, ⟨"boot.started", "", ""⟩⟩, ⟨1, ⟨"boot.completed", "", ""⟩⟩] ∧
    ¬Before (.handled 0 ⟨1, ⟨"boot.completed", "", ""⟩⟩) (.handled 0 ⟨0, ⟨"boot.started", "", ""⟩⟩)
      s.memory.history := by
  obtain ⟨s, hs, hhandled, hcut⟩ : ∃ s, eventBus.Reached anyhow (newEventBus 2) s ∧
      handledSeq 0 s.memory.history =
        [⟨0, ⟨"boot.started", "", ""⟩⟩, ⟨1, ⟨"boot.completed", "", ""⟩⟩] ∧
      [Item.returned 0, .began ⟨1, ⟨"boot.completed", "", ""⟩⟩].Sublist s.memory.history :=
    Reached.of_run twoEvents (by decide +kernel)
  exact ⟨s, hs, hhandled, (delivery_ordered 2 hs).2.2.1 0 _ _ hcut⟩

theorem exists_subscribeStep (hreaders : m.readers = 0) (hopen : m.closed = false) :
    ∃ m' made, subscribeStep m {} true = some (m', made) ∧ m'.created = m.created + 1 ∧
      m'.readers = 0 ∧ m'.closed = false := by
  rw [subscribeStep, if_neg (by decide), if_neg (not_not.mpr hreaders),
    if_neg (by rw [hopen]; decide)]
  exact ⟨_, _, rfl, rfl, hreaders, hopen⟩

/-- **An identifier comes again** after 2⁶⁴ subscriptions. -/
theorem identifier_reused : ∃ s, eventBus.Reached anyhow (newEventBus 0) s ∧
    ∃ p p' id, p ≠ p' ∧ .subscribed p id ∈ s.memory.history ∧
    .subscribed p' id ∈ s.memory.history := by
  have hmany : ∀ n, ∃ s, eventBus.Reached anyhow (newEventBus 0) s ∧
      s.memory.created = n ∧ s.memory.readers = 0 ∧ s.memory.closed = false := by
    intro n
    induction n with
    | zero => exact ⟨⟨newEventBus 0, []⟩, .start, rfl, rfl, rfl⟩
    | succ n ih =>
      obtain ⟨s, hs, hcreated, hreaders, hopen⟩ := ih
      obtain ⟨m', made, hstep, hcreated', hm'⟩ := exists_subscribeStep hreaders hopen
      have hcall : eventBus.step s.memory {} (eventBus.call s.memory (.subscribe {} true)) =
          some (m', made) := hstep
      refine ⟨_, hs.call_step (fun _ => trivial) hcall, ?_, hm'⟩
      rw [hcreated', hcreated]
  obtain ⟨s, hs, hcreated, -⟩ := hmany (2 ^ 64 + 1)
  have hlisted := (kept_of_reached hs).listed
  refine ⟨s, hs, 0, 2 ^ 64, identifier 0, by norm_num, ?_, ?_⟩
  · exact (hlisted.subscribed 0 _).mpr ⟨by rw [hcreated]; norm_num, rfl⟩
  · exact (hlisted.subscribed _ _).mpr ⟨by rw [hcreated]; norm_num, rfl⟩

end Containers.EventBus
