import Containers.Go.Values
import Containers.Lib.Sections

/-!
# The event bus

`DefaultEventBus` of `pkg/event`, section by section, with the delivery loops of its subscribers.

A `Publish` holds the read lock from its beginning to its end and meets one subscriber after the
other, so several of them can overlap; `Subscribe`, `Unsubscribe` and `Close` wait until nobody
reads the map, and change it in one section. To stop a subscriber is to close its channel, once,
after the lock is given back. A send does not wait: the event is handed to a loop that is parked in
its receive, or goes into the buffer, or is dropped.

A channel is a queue with a mark that it is open; sending on a closed one and closing a closed one
are faults, which are written down (in Go the program would panic). The order of things is in a
history that no section reads. The context of an event, its time, data and error are left out, and
so are panics of handlers, which the loop recovers from.
-/

namespace Containers.EventBus

open Go

/-! ### Events, filters and subscriptions -/

/-- An event. -/
structure Event where
  type : String
  source : String := ""
  name : String := ""
  deriving DecidableEq

/-- Which events a subscriber wants; an empty list stands for all. -/
structure EventFilter where
  types : List String := []
  sources : List String := []
  deriving DecidableEq

/-- `matches`. -/
def EventFilter.accepts (filter : EventFilter) (e : Event) : Bool :=
  (filter.types.isEmpty || filter.types.contains e.type) &&
    (filter.sources.isEmpty || filter.sources.contains e.source)

/-- `newSubscriptionID`. -/
def newSubscriptionID (n : ℕ) : String := "sub-" ++ toString n

/-- An event on its way, with the number of the `Publish` that sends it. -/
structure Delivery where
  number : ℕ
  event : Event
  deriving DecidableEq

/-- Where a delivery loop is. -/
inductive Loop where
  /-- Before its receive; its handler may still be running. -/
  | select
  /-- Parked in its receive. -/
  | parked
  /-- It has received an event and is about to call the handler. -/
  | dispatch (d : Delivery)
  | exited
  deriving DecidableEq

/-- **A subscription**: its channel, the channel `done` that its loop closes at the end, whether its
stop was requested, and where its loop is. -/
structure Subscription where
  filter : EventFilter := {}
  buffer : List Delivery := []
  isOpen : Bool := true
  stopped : Bool := false
  done : Bool := false
  loop : Loop := .select

/-- What must not happen. -/
inductive Fault where
  | sendOnClosed
  | closeOfClosed
  deriving DecidableEq

/-- What is written down. -/
inductive Item where
  | began (d : Delivery)
  | returned (number : ℕ)
  | sent (p : ℕ) (d : Delivery)
  /-- The handler of a subscriber was given an event. -/
  | handled (p : ℕ) (d : Delivery)
  | subscribed (p : ℕ) (id : String)
  | removed (p : ℕ)
  deriving DecidableEq

/-- **What the calls and the loops share**: the map of the subscribers, with the subscriptions that
its pointers stand for, the counter of the identifiers, the number of readers of the lock, and
whether the bus and its channel `closeCh` are closed. -/
structure Memory where
  size : ℕ
  subs : GoMap String ℕ := ∅
  sub : ℕ → Subscription := fun _ => {}
  /-- The number of subscriptions that were made; the next one gets this pointer. -/
  created : ℕ := 0
  nextID : ℕ := 0
  readers : ℕ := 0
  closed : Bool := false
  closeCh : Bool := false
  published : ℕ := 0
  faults : List Fault := []
  history : List Item := []

/-- `NewEventBus`. -/
def newEventBus (bufferSize : ℤ) : Memory := { size := bufferSize.toNat }

namespace Memory

variable (m : Memory)

def log (items : List Item) : Memory := { m with history := m.history ++ items }

def setSub (p : ℕ) (sub : Subscription) : Memory :=
  { m with sub := fun q => if q = p then sub else m.sub q }

def fault (x : Fault) : Memory := { m with faults := x :: m.faults }

/-- The send of a `Publish` to one subscriber. -/
def send (d : Delivery) (p : ℕ) : Memory :=
  if (m.sub p).filter.accepts d.event = false then m
  else if (m.sub p).isOpen = false then m.fault .sendOnClosed
  else if (m.sub p).loop = .parked then
    (m.setSub p { m.sub p with loop := .dispatch d }).log [.sent p d]
  else if (m.sub p).buffer.length < m.size then
    (m.setSub p { m.sub p with buffer := (m.sub p).buffer ++ [d] }).log [.sent p d]
  else m

/-- `requestStop`. -/
def requestStop (p : ℕ) : Memory :=
  if (m.sub p).stopped then m
  else if (m.sub p).isOpen then m.setSub p { m.sub p with stopped := true, isOpen := false }
  else (m.setSub p { m.sub p with stopped := true }).fault .closeOfClosed

/-- A loop returns, and closes its channel `done`. -/
def exit (p : ℕ) : Memory :=
  if (m.sub p).done then (m.setSub p { m.sub p with loop := .exited }).fault .closeOfClosed
  else m.setSub p { m.sub p with loop := .exited, done := true }

/-- The bus closes its channel `closeCh`. -/
def shut : Memory := if m.closeCh then m.fault .closeOfClosed else { m with closeCh := true }

def subscribers : List ℕ := m.subs.entries.map fun e => e.2

end Memory

/-! ### The sections -/

/-- A call or a loop in flight. -/
inductive Frame where
  | publish (event : Event)
  /-- A `Publish` that holds the read lock, with the subscribers that it has not yet met. -/
  | publishing (d : Delivery) (left : List ℕ)
  | subscribe (filter : EventFilter) (handler : Bool)
  | unsubscribe (id : String)
  /-- `Unsubscribe`, after the subscriber was taken out of the map. -/
  | stop (p : ℕ)
  | close
  /-- `Close`, after the subscribers were taken out of the map: those that are still to be stopped,
  and all. -/
  | stopping (left all : List ℕ)
  | joining (left : List ℕ)
  /-- The delivery loop of a subscriber. -/
  | run (p : ℕ)
  | ret (id : String)

/-- What comes from outside: which of several a loop goes on with, whether a delivery loop that
could do either returns because of `closeCh`, and whether a wait has timed out. -/
structure Answer where
  pick : ℕ := 0
  quit : Bool := false
  timeout : Bool := false

variable (m : Memory) (o : Answer)

/-- `Publish`, up to the read lock and the look at `closed`. -/
def publishStep (event : Event) : Memory × List Frame :=
  let d : Delivery := ⟨m.published, event⟩
  let begun : Memory := { m with published := m.published + 1 }
  if m.closed then (begun.log [.began d, .returned d.number], [.ret ""])
  else ({ begun with readers := m.readers + 1 }.log [.began d],
    [.publishing d m.subscribers])

/-- `Subscribe`. -/
def subscribeStep (filter : EventFilter) (handler : Bool) : Option (Memory × List Frame) :=
  if handler = false then some (m, [.ret ""])
  else if m.readers ≠ 0 then none
  else if m.closed then some (m, [.ret ""])
  else
    -- the counter is a 64-bit word
    let nextID := (m.nextID + 1) % 2 ^ 64
    let id := newSubscriptionID nextID
    let p := m.created
    some (({ m with
        nextID := nextID
        created := m.created + 1
        subs := m.subs.insert id p }.setSub p { filter := filter }).log [.subscribed p id],
      [.ret id, .run p])

/-- `Unsubscribe`, up to the end of its section. -/
def unsubscribeStep (id : String) : Option (Memory × List Frame) :=
  if m.readers ≠ 0 then none
  else
    match m.subs.lookup id with
    | none => some (m, [.ret ""])
    | some p => some ({ m with subs := m.subs.erase id }.log [.removed p], [.stop p])

/-- `Close`, up to the end of its section. -/
def closeStep : Option (Memory × List Frame) :=
  if m.readers ≠ 0 then none
  else if m.closed then some (m, [.ret ""])
  else
    some ({ m.shut with closed := true, subs := ∅ }.log (m.subscribers.map .removed),
      [.stopping m.subscribers m.subscribers])

/-- `run`: one turn of a delivery loop. A loop that has nothing to do waits. -/
def runStep (p : ℕ) : Option (Memory × List Frame) :=
  match (m.sub p).loop with
  | .select =>
    match (m.sub p).buffer with
    | d :: ds =>
      if m.closeCh && o.quit then some (m.exit p, [])
      else some (m.setSub p { m.sub p with buffer := ds, loop := .dispatch d }, [.run p])
    | [] =>
      if !(m.sub p).isOpen || m.closeCh then some (m.exit p, [])
      else some (m.setSub p { m.sub p with loop := .parked }, [.run p])
  | .parked => if !(m.sub p).isOpen || m.closeCh then some (m.exit p, []) else none
  | .dispatch d =>
    some ((m.setSub p { m.sub p with loop := .select }).log [.handled p d], [.run p])
  | .exited => some (m, [])

def step : Frame → Option (Memory × List Frame)
  | .publish event => some (publishStep m event)
  | .publishing d left =>
    if left = [] then
      some ({ m with readers := m.readers - 1 }.log [.returned d.number], [.ret ""])
    else left[o.pick]?.map fun p => (m.send d p, [.publishing d (left.eraseIdx o.pick)])
  | .subscribe filter handler => subscribeStep m filter handler
  | .unsubscribe id => unsubscribeStep m id
  | .stop p => some (m.requestStop p, [.ret ""])
  | .close => closeStep m
  | .stopping left all =>
    if left = [] then some (m, [.joining all])
    else left[o.pick]?.map fun p => (m.requestStop p, [.stopping (left.eraseIdx o.pick) all])
  | .joining left =>
    if left = [] then some (m, [.ret ""])
    else left[o.pick]?.bind fun p =>
      if (m.sub p).done || o.timeout then some (m, [.joining (left.eraseIdx o.pick)]) else none
  | .run p => runStep m o p
  | .ret _ => some (m, [])

/-! ### What a section can do -/

/-- **What a section can do**: the cases of `step`, with the guards that its callers rely on. -/
inductive Effect (m : Memory) : Frame → Memory → List Frame → Prop where
  | publishClosed (event : Event) : m.closed = true → Effect m (.publish event)
      ({ m with published := m.published + 1 }.log
        [.began ⟨m.published, event⟩, .returned m.published]) [.ret ""]
  | begin (event : Event) : m.closed = false → Effect m (.publish event)
      ({ m with published := m.published + 1, readers := m.readers + 1 }.log
        [.began ⟨m.published, event⟩])
      [.publishing ⟨m.published, event⟩ m.subscribers]
  | send (d : Delivery) (left : List ℕ) (i p : ℕ) : left[i]? = some p →
      Effect m (.publishing d left) (m.send d p) [.publishing d (left.eraseIdx i)]
  | finish (d : Delivery) : Effect m (.publishing d [])
      ({ m with readers := m.readers - 1 }.log [.returned d.number]) [.ret ""]
  | refuse (filter : EventFilter) (handler : Bool) :
      Effect m (.subscribe filter handler) m [.ret ""]
  | subscribe (filter : EventFilter) (id : String) : m.readers = 0 → m.closed = false →
      id = newSubscriptionID ((m.nextID + 1) % 2 ^ 64) → Effect m (.subscribe filter true)
      (({ m with
        nextID := (m.nextID + 1) % 2 ^ 64
        created := m.created + 1
        subs := m.subs.insert id m.created }.setSub m.created { filter := filter }).log
          [.subscribed m.created id]) [.ret id, .run m.created]
  | unknown (id : String) : Effect m (.unsubscribe id) m [.ret ""]
  | remove (id : String) (p : ℕ) : m.readers = 0 → m.subs.lookup id = some p →
      Effect m (.unsubscribe id) ({ m with subs := m.subs.erase id }.log [.removed p]) [.stop p]
  | stop (p : ℕ) : Effect m (.stop p) (m.requestStop p) [.ret ""]
  | closeAgain : Effect m .close m [.ret ""]
  | close : m.readers = 0 → m.closed = false → Effect m .close
      ({ m.shut with closed := true, subs := ∅ }.log (m.subscribers.map .removed))
      [.stopping m.subscribers m.subscribers]
  | stopNext (left all : List ℕ) (i p : ℕ) : left[i]? = some p →
      Effect m (.stopping left all) (m.requestStop p) [.stopping (left.eraseIdx i) all]
  | stopLast (all : List ℕ) : Effect m (.stopping [] all) m [.joining all]
  | join (left left' : List ℕ) : Effect m (.joining left) m [.joining left']
  | joinLast : Effect m (.joining []) m [.ret ""]
  | receive (p : ℕ) (d : Delivery) (ds : List Delivery) : (m.sub p).loop = .select →
      (m.sub p).buffer = d :: ds →
      Effect m (.run p) (m.setSub p { m.sub p with buffer := ds, loop := .dispatch d }) [.run p]
  | park (p : ℕ) : (m.sub p).loop = .select → (m.sub p).buffer = [] →
      Effect m (.run p) (m.setSub p { m.sub p with loop := .parked }) [.run p]
  | dispatch (p : ℕ) (d : Delivery) : (m.sub p).loop = .dispatch d →
      Effect m (.run p) ((m.setSub p { m.sub p with loop := .select }).log [.handled p d]) [.run p]
  | exit (p : ℕ) : (m.sub p).loop = .select ∨ (m.sub p).loop = .parked →
      Effect m (.run p) (m.exit p) []
  | gone (p : ℕ) : Effect m (.run p) m []
  | ended (id : String) : Effect m (.ret id) m []

variable {m o} {m' : Memory} {made : List Frame} {f : Frame}

theorem effect_of_runStep {p : ℕ} (h : runStep m o p = some (m', made)) :
    Effect m (.run p) m' made := by
  rw [runStep] at h
  split at h
  · rename_i hloop
    split at h <;> split_ifs at h <;> cases h
    · exact .exit p (.inl hloop)
    · exact .receive p _ _ hloop ‹_›
    · exact .exit p (.inl hloop)
    · exact .park p hloop ‹_›
  · rename_i hloop
    split_ifs at h
    cases h
    exact .exit p (.inr hloop)
  · rename_i d hloop
    cases h
    exact .dispatch p d hloop
  · cases h
    exact .gone p

/-- **Every section is one of these.** -/
theorem effect_of_step (h : step m o f = some (m', made)) : Effect m f m' made := by
  cases f with
  | publish event =>
    rw [step, publishStep] at h
    split_ifs at h with hclosed <;> cases h
    · exact .publishClosed event hclosed
    · exact .begin event (Bool.eq_false_iff.mpr hclosed)
  | publishing d left =>
    rw [step] at h
    split_ifs at h with hleft
    · cases h
      subst hleft
      exact .finish d
    · obtain ⟨p, hp, heq⟩ := Option.map_eq_some_iff.mp h
      cases heq
      exact .send d left o.pick p hp
  | subscribe filter handler =>
    rw [step, subscribeStep] at h
    split_ifs at h with hhandler hreaders hclosed <;> cases h
    · exact .refuse filter handler
    · exact .refuse filter handler
    · rw [Bool.not_eq_false] at hhandler
      subst hhandler
      exact .subscribe filter _ (not_not.mp hreaders) (Bool.eq_false_iff.mpr hclosed) rfl
  | unsubscribe id =>
    rw [step, unsubscribeStep] at h
    split_ifs at h with hreaders
    split at h <;> cases h
    · exact .unknown id
    · exact .remove id _ (not_not.mp hreaders) ‹_›
  | stop p =>
    cases h
    exact .stop p
  | close =>
    rw [step, closeStep] at h
    split_ifs at h with hreaders hclosed <;> cases h
    · exact .closeAgain
    · exact .close (not_not.mp hreaders) (Bool.eq_false_iff.mpr hclosed)
  | stopping left all =>
    rw [step] at h
    split_ifs at h with hleft
    · cases h
      subst hleft
      exact .stopLast all
    · obtain ⟨p, hp, heq⟩ := Option.map_eq_some_iff.mp h
      cases heq
      exact .stopNext left all o.pick p hp
  | joining left =>
    rw [step] at h
    split_ifs at h with hleft
    · cases h
      subst hleft
      exact .joinLast
    · obtain ⟨p, -, h⟩ := Option.bind_eq_some_iff.mp h
      split_ifs at h
      cases h
      exact .join left _
  | run p => exact effect_of_runStep h
  | ret id =>
    cases h
    exact .ended id

/-- What is called. -/
inductive Call where
  | publish (event : Event)
  | subscribe (filter : EventFilter) (handler : Bool)
  | unsubscribe (id : String)
  | close

def Call.frame : Call → Frame
  | .publish event => .publish event
  | .subscribe filter handler => .subscribe filter handler
  | .unsubscribe id => .unsubscribe id
  | .close => .close

/-- **The event bus, section by section.** -/
def eventBus : Sections Memory Frame Answer Call where
  call _ c := c.frame
  step := step

end Containers.EventBus
