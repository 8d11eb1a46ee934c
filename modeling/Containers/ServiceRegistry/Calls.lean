import Containers.Go.Json
import Containers.Lib.Sections

/-!
# The service registry, section by section

`ServiceRegistry` of `pkg/serviceregistry/registry.go`: services by name, in memory and in a file.
The map is behind one mutex and the file behind another, `persistMu`: a call changes the map,
releases it, and then writes the whole map to the file, with the second mutex from before it looks
at the map until the file is in place. `Clear` empties the map, and removes the file in a section of
its own.

The strings are `Go.Bytes`, for they go through a JSON text. The file is replaced by a rename, so it
is there as a whole or not at all; the temporary files, which are never read, are left out, and so
are the log lines. What comes from outside: the time, what answers on a port, and what becomes of
the operations on files.
-/

namespace Containers.ServiceRegistry

open Go ThreadSystem List GoMap

/-! ### Services, in memory and in the file -/

/-- A registered service. A time is a number, 0 for the zero time. -/
structure Service where
  name : Bytes := []
  host : Bytes := []
  port : ℤ := 0
  protocol : Bytes := []
  healthPath : Bytes := []
  healthType : Bytes := []
  labels : GoMap Bytes Bytes := ∅
  discoveredAt : ℕ := 0
  lastChecked : ℕ := 0
  healthy : Bool := false

abbrev ServiceOption := Service → Service

/-- `WithHost`. -/
def withHost (host : Bytes) : ServiceOption := fun s => { s with host := host }

def Service.stored (svc : Service) : Service :=
  { svc with
    name := toValidUtf8 svc.name
    host := toValidUtf8 svc.host
    protocol := toValidUtf8 svc.protocol
    healthPath := toValidUtf8 svc.healthPath
    healthType := toValidUtf8 svc.healthType
    labels := unmarshalMap (marshalMap toValidUtf8 svc.labels) }

abbrev Services := GoMap Bytes (Option Service)

/-- The entries of the object in a file; a nil pointer is written as null. -/
abbrev Entries := List (Bytes × Option Service)

/-- `json.MarshalIndent` of the map. -/
def marshal (services : Services) : Entries := marshalMap (Option.map Service.stored) services

/-- What `loadFromDisk` takes over from a file: all that is not null. -/
def load (entries : Entries) : Services :=
  GoMap.ofList (((unmarshalMap entries).entries.map fun e => (e.1, e.2)).filter fun e => e.2.isSome)

theorem lookup_load {entries : Entries} {n : Bytes} {e : Option Service} :
    (load entries).lookup n = some e ↔
      (unmarshalMap entries).lookup n = some e ∧ e.isSome = true := by
  have hmem : ∀ n e, (n, e) ∈ ((unmarshalMap entries).entries.map fun e => (e.1, e.2)).filter
      (fun e => e.2.isSome) ↔ (unmarshalMap entries).lookup n = some e ∧ e.isSome = true := by
    intro n e
    rw [mem_filter, mem_map]
    constructor
    · rintro ⟨⟨x, hx, heq⟩, hsome⟩
      obtain ⟨rfl, rfl⟩ := Prod.mk.inj heq
      exact ⟨lookup_of_mem_entries hx, hsome⟩
    · rintro ⟨hlookup, hsome⟩
      exact ⟨⟨⟨n, e⟩, mem_entries_of_lookup hlookup, rfl⟩, hsome⟩
  rw [load, lookup_ofList_iff fun n e e' he he' => ?_, hmem]
  have hlookup := ((hmem n e).mp he).1
  rw [((hmem n e').mp he').1] at hlookup
  exact (Option.some_inj.mp hlookup).symm

/-- The registry file. -/
inductive Disk where
  | absent
  /-- A file that is no such object. -/
  | corrupt
  | services (entries : Entries)

def Disk.stored : Disk → Services
  | .services entries => load entries
  | _ => ∅

/-- **What the calls share**: the map, the second mutex and the file, with the options of the
registry. -/
structure Memory where
  services : Services := ∅
  persistMu : Bool := false
  disk : Disk := .absent
  defaultHost : Bytes := utf8 "localhost"
  registryDir : String

/-- **`New`**: the registry takes over what is in the file, if it can be read. A file that is
corrupt is moved aside, if that can be done. -/
def newRegistry (registryDir : String) (defaultHost : Bytes) (disk : Disk)
    (readable movable : Bool) :
    Memory where
  services := if registryDir = "" ∨ readable = false then ∅ else disk.stored
  disk :=
    match disk with
    | .corrupt =>
        if registryDir = "" ∨ readable = false ∨ movable = false then .corrupt else .absent
    | _ => disk
  defaultHost := defaultHost
  registryDir := registryDir

/-! ### The sections -/

/-- The call that a service is persisted for. -/
inductive Caller where
  | register (name : Bytes)
  | discover (name : Bytes)
  | unregister (name : Bytes)
  | updateHealth (name : Bytes) (healthy : Bool)

def Caller.name : Caller → Bytes
  | .register name => name
  | .discover name => name
  | .unregister name => name
  | .updateHealth name _ => name

/-- Where the writing of a file has failed. -/
inductive WriteFault where
  | createRegistryDir
  | createTemp
  | writeTemp
  | closeTemp
  | rename

inductive Error where
  /-- "register %s: invalid port %d (must be 1-65535)" -/
  | invalidPort (name : Bytes) (port : ℤ)
  /-- "register %s: port %d on host %s is already claimed by service %q" -/
  | claimed (name : Bytes) (port : ℤ) (host other : Bytes)
  /-- "register %s: persist failed: ", and so on for the others; there is no fault when the map
  could not be marshalled. -/
  | persistFailed (caller : Caller) (fault : Option WriteFault) (err : String)
  | context (err : String)
  /-- "service %s was unregistered during discovery" -/
  | unregistered (name : Bytes)
  /-- "service %s not discovered in port range %d-%d" -/
  | notDiscovered (name : Bytes) (start stop : ℤ)

/-- `persist`, point by point. -/
inductive PersistPoint where
  | enter
  /-- It has the second mutex. -/
  | snapshot
  | write (entries : Entries)

/-- A call in flight. -/
inductive Frame where
  /-- `Register`: alone, or from a `Discover`. -/
  | register (caller : Caller) (port : ℤ) (opts : List ServiceOption)
  | persist (caller : Caller) (p : PersistPoint)
  | unregister (name : Bytes)
  | updateHealth (name : Bytes) (healthy : Bool)
  | discover (name : Bytes) (defaultPort : ℤ) (portRange : List ℤ)
  | discovering (name : Bytes) (start stop port : ℤ)
  /-- `Get`, at the end of a `Discover`. -/
  | get (name : Bytes)
  | clear
  | remove
  | ret (svc : Option Service) (err : Option Error)
  /-- A nil pointer was followed. -/
  | panicked

/-- What comes from outside. -/
structure Answer where
  now : ℕ := 1
  discoveredNow : ℕ := 1
  /-- The context is done. -/
  context : Option String := none
  /-- Something answers on the port. -/
  dial : Bool := false
  marshalErr : Option String := none
  writeErr : Option (WriteFault × String) := none
  removed : Bool := true

variable (m : Memory) (o : Answer)

/-- The service that a `Register` makes. -/
def newService (defaultHost name : Bytes) (port : ℤ) (opts : List ServiceOption) : Service :=
  opts.foldl (fun svc opt => opt svc)
    { name := name, host := defaultHost, port := port, protocol := utf8 "tcp", healthy := true }

/-- A service of another name at the address of `svc`. -/
def Memory.claimant (name : Bytes) (svc : Service) : Option Bytes :=
  (m.services.entries.find? fun e =>
    e.1 ≠ name ∧
      e.2.any fun other => other.host = svc.host ∧ other.port = svc.port).map fun e => e.1

def Memory.firstSeen (name : Bytes) (now : ℕ) : ℕ :=
  match m.services.lookup name with
  | some (some existing) => if existing.discoveredAt ≠ 0 then existing.discoveredAt else now
  | _ => now

/-- A service as it is stored: when it was looked at, and when it was first seen. -/
def Memory.stamp (name : Bytes) (svc : Service) : Service :=
  { svc with lastChecked := o.now, discoveredAt := m.firstSeen name o.discoveredNow }

/-- `Register`, up to the file. -/
def registerStep (caller : Caller) (port : ℤ) (opts : List ServiceOption) : Memory × List Frame :=
  let svc := newService m.defaultHost caller.name port opts
  if svc.port < 1 ∨ svc.port > 65535 then
    (m, [.ret none (some (.invalidPort caller.name svc.port))])
  else
    match m.claimant caller.name svc with
    | some other => (m, [.ret none (some (.claimed caller.name svc.port svc.host other))])
    | none =>
      ({ m with services := m.services.insert caller.name (some (m.stamp o caller.name svc)) },
        [.persist caller .enter])

/-- What comes after `persist`. -/
def persisted (caller : Caller) (err : Option (Option WriteFault × String)) : Frame :=
  match err, caller with
  | some (fault, err), _ => .ret none (some (.persistFailed caller fault err))
  | none, .discover name => .get name
  | none, _ => .ret none none

/-- `persist`. -/
def persistStep (caller : Caller) : PersistPoint → Option (Memory × List Frame)
  | .enter =>
    if m.registryDir = "" then some (m, [persisted caller none])
    else if m.persistMu = true then none
    else some ({ m with persistMu := true }, [.persist caller .snapshot])
  | .snapshot =>
    match o.marshalErr with
    | some err => some ({ m with persistMu := false }, [persisted caller (some (none, err))])
    | none => some (m, [.persist caller (.write (marshal m.services))])
  | .write entries =>
    match o.writeErr with
    | some (fault, err) =>
      some ({ m with persistMu := false }, [persisted caller (some (some fault, err))])
    | none =>
      some ({ m with persistMu := false, disk := .services entries }, [persisted caller none])

/-- `UpdateHealth`, up to the file. -/
def updateHealthStep (name : Bytes) (healthy : Bool) : Memory × List Frame :=
  match m.services.lookup name with
  | none => (m, [.ret none none])
  | some none => (m, [.panicked])
  | some (some svc) =>
    ({ m with
      services := m.services.insert name
        (some { svc with healthy := healthy, lastChecked := o.now }) },
      [.persist (.updateHealth name healthy) .enter])

/-- The service of a name, and what happens if there is none. -/
def Memory.find (name : Bytes) (missing : Frame) : Frame :=
  match m.services.lookup name with
  | none => missing
  | some none => .panicked
  | some (some svc) => .ret (some svc) none

/-- The ports that `Discover` looks at. -/
def portsOf (defaultPort : ℤ) : List ℤ → ℤ × ℤ
  | start :: stop :: _ => (start, stop)
  | _ => (defaultPort, wrapInt64 (defaultPort + 1))

/-- `Discover`, one port. -/
def discoveringStep (name : Bytes) (start stop port : ℤ) : Frame :=
  if port < stop then
    match o.context with
    | some err => .ret none (some (.context err))
    | none =>
      if o.dial = true then .register (.discover name) port []
      else .discovering name start stop (port + 1)
  else .ret none (some (.notDiscovered name start (wrapInt64 (stop - 1))))

def step : Frame → Option (Memory × List Frame)
  | .register caller port opts => some (registerStep m o caller port opts)
  | .persist caller p => persistStep m o caller p
  | .unregister name =>
    some ({ m with services := m.services.erase name }, [.persist (.unregister name) .enter])
  | .updateHealth name healthy => some (updateHealthStep m o name healthy)
  | .discover name defaultPort portRange =>
    let ports := portsOf defaultPort portRange
    some (m, [m.find name (.discovering name ports.1 ports.2 ports.1)])
  | .discovering name start stop port => some (m, [discoveringStep o name start stop port])
  | .get name => some (m, [m.find name (.ret none (some (.unregistered name)))])
  | .clear =>
    some ({ m with services := ∅ }, [if m.registryDir = "" then .ret none none else .remove])
  | .remove =>
    if m.persistMu = true then none
    else some ({ m with disk := if o.removed = true then .absent else m.disk }, [.ret none none])
  | .ret _ _ => some (m, [])
  | .panicked => none

/-- What is called. -/
inductive Call where
  | register (name : Bytes) (port : ℤ) (opts : List ServiceOption)
  | discover (name : Bytes) (defaultPort : ℤ) (portRange : List ℤ)
  | unregister (name : Bytes)
  | updateHealth (name : Bytes) (healthy : Bool)
  | clear

def Call.frame : Call → Frame
  | .register name port opts => .register (.register name) port opts
  | .discover name defaultPort portRange => .discover name defaultPort portRange
  | .unregister name => .unregister name
  | .updateHealth name healthy => .updateHealth name healthy
  | .clear => .clear

/-- **The service registry, section by section.** -/
def serviceRegistry : Sections Memory Frame Answer Call where
  call _ c := c.frame
  step := step

/-- A `Register` that is called and runs as a whole, with the number `i`. -/
def registerAlone (i : ℕ) (name host : Bytes) (port : ℤ)
    (rest : List (Action (ℕ × Answer) Call)) : List (Action (ℕ × Answer) Call) :=
  .call (.register name port [withHost host]) :: .step i (0, {}) :: .step i (0, {}) ::
    .step i (0, {}) :: .step i (0, {}) :: .step i (0, {}) :: rest

/-! ### What a section does -/

def Frame.isFiling : Frame → Bool
  | .persist _ _ => true
  | .remove => true
  | _ => false

/-- **What a section does.** -/
inductive Effect (m : Memory) (o : Answer) : Frame → Memory → List Frame → Prop where
  | idle {f : Frame} {made : List Frame} : f.isFiling = false → (∀ g ∈ made, g.isFiling = false) →
      Effect m o f m made
  | store (caller : Caller) (port : ℤ) (opts : List ServiceOption) (svc : Service) :
      svc = newService m.defaultHost caller.name port opts → 1 ≤ svc.port → svc.port ≤ 65535 →
      m.claimant caller.name svc = none →
      Effect m o (.register caller port opts)
        { m with services := m.services.insert caller.name (some (m.stamp o caller.name svc)) }
        [.persist caller .enter]
  | delete (name : Bytes) :
      Effect m o (.unregister name) { m with services := m.services.erase name }
        [.persist (.unregister name) .enter]
  | health (name : Bytes) (healthy : Bool) (svc : Service) :
      m.services.lookup name = some (some svc) →
      Effect m o (.updateHealth name healthy)
        { m with
          services := m.services.insert name
            (some { svc with healthy := healthy, lastChecked := o.now }) }
        [.persist (.updateHealth name healthy) .enter]
  | clear (g : Frame) : g = (if m.registryDir = "" then .ret none none else .remove) →
      Effect m o .clear { m with services := ∅ } [g]
  /-- There is no file. -/
  | inMemory (caller : Caller) {g : Frame} : m.registryDir = "" → g.isFiling = false →
      Effect m o (.persist caller .enter) m [g]
  | lock (caller : Caller) : m.persistMu = false →
      Effect m o (.persist caller .enter) { m with persistMu := true } [.persist caller .snapshot]
  | snapshot (caller : Caller) :
      Effect m o (.persist caller .snapshot) m [.persist caller (.write (marshal m.services))]
  | noSnapshot (caller : Caller) {g : Frame} : o.marshalErr ≠ none → g.isFiling = false →
      Effect m o (.persist caller .snapshot) { m with persistMu := false } [g]
  | write (caller : Caller) (entries : Entries) {g : Frame} : g.isFiling = false →
      Effect m o (.persist caller (.write entries))
        { m with persistMu := false, disk := .services entries } [g]
  | noWrite (caller : Caller) (entries : Entries) {g : Frame} : o.writeErr ≠ none →
      g.isFiling = false →
      Effect m o (.persist caller (.write entries)) { m with persistMu := false } [g]
  | remove : m.persistMu = false →
      Effect m o .remove { m with disk := if o.removed = true then .absent else m.disk }
        [.ret none none]

variable {m o} {m' : Memory} {made : List Frame} {f : Frame}

theorem isFiling_persisted (caller : Caller) (err : Option (Option WriteFault × String)) :
    (persisted caller err).isFiling = false := by
  rcases err with _ | ⟨fault, err⟩
  · cases caller <;> rfl
  · rfl

theorem isFiling_find {name : Bytes} {missing : Frame} (h : missing.isFiling = false) :
    (m.find name missing).isFiling = false := by
  rw [Memory.find]
  split
  · exact h
  · rfl
  · rfl

theorem isFiling_discoveringStep (name : Bytes) (start stop port : ℤ) :
    (discoveringStep o name start stop port).isFiling = false := by
  rw [discoveringStep]
  split
  · split
    · rfl
    · split <;> rfl
  · rfl

theorem Effect.over {g : Frame} (hf : f.isFiling = false) (hg : g.isFiling = false) :
    Effect m o f m [g] :=
  .idle hf (forall_mem_singleton.mpr hg)

theorem effect_of_registerStep {caller : Caller} {port : ℤ} {opts : List ServiceOption}
    (h : registerStep m o caller port opts = (m', made)) :
    Effect m o (.register caller port opts) m' made := by
  rw [registerStep] at h
  split_ifs at h with hport
  · cases h
    exact .over rfl rfl
  · rw [not_or, not_lt, not_lt] at hport
    split at h <;> cases h
    · exact .over rfl rfl
    · exact .store caller port opts _ rfl hport.1 hport.2 ‹_›

theorem effect_of_persistStep {caller : Caller} {p : PersistPoint}
    (h : persistStep m o caller p = some (m', made)) : Effect m o (.persist caller p) m' made := by
  cases p with
  | enter =>
    rw [persistStep] at h
    split_ifs at h with hdir hlock <;> cases h
    · exact .inMemory caller hdir (isFiling_persisted _ _)
    · exact .lock caller (Bool.eq_false_iff.mpr hlock)
  | snapshot =>
    rw [persistStep] at h
    split at h <;> cases h
    · exact .noSnapshot caller (by simp [*]) (isFiling_persisted _ _)
    · exact .snapshot caller
  | write entries =>
    rw [persistStep] at h
    split at h <;> cases h
    · exact .noWrite caller entries (by simp [*]) (isFiling_persisted _ _)
    · exact .write caller entries (isFiling_persisted _ _)

theorem effect_of_updateHealthStep {name : Bytes} {healthy : Bool}
    (h : updateHealthStep m o name healthy = (m', made)) :
    Effect m o (.updateHealth name healthy) m' made := by
  rw [updateHealthStep] at h
  split at h <;> cases h
  · exact .over rfl rfl
  · exact .over rfl rfl
  · exact .health name healthy _ ‹_›

/-- **Every section has one of the effects.** -/
theorem effect_of_step (h : step m o f = some (m', made)) : Effect m o f m' made := by
  cases f with
  | register caller port opts => exact effect_of_registerStep (Option.some_inj.mp h)
  | persist caller p => exact effect_of_persistStep h
  | unregister name =>
    cases h
    exact .delete name
  | updateHealth name healthy => exact effect_of_updateHealthStep (Option.some_inj.mp h)
  | discover name defaultPort portRange =>
    cases h
    exact .over rfl (isFiling_find rfl)
  | discovering name start stop port =>
    cases h
    exact .over rfl (isFiling_discoveringStep _ _ _ _)
  | get name =>
    cases h
    exact .over rfl (isFiling_find rfl)
  | clear =>
    cases h
    exact .clear _ rfl
  | remove =>
    rw [step] at h
    by_cases hlock : m.persistMu = true
    · rw [if_pos hlock] at h
      cases h
    · rw [if_neg hlock] at h
      cases h
      exact .remove (Bool.eq_false_iff.mpr hlock)
  | ret svc err =>
    cases h
    exact .idle rfl (forall_mem_nil _)
  | panicked => cases h

end Containers.ServiceRegistry
