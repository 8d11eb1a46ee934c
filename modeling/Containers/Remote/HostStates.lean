import Containers.Lib.Sections
import Containers.Remote.HostManager

/-!
# The states of the hosts

`DefaultHostManager` of `pkg/remote/host_manager.go` with calls that overlap: beside the registry
there is a map of the states that the last probes have found. `AddHost` and `RemoveHost` change both
maps in one section. A probe looks its host up in one section and records the state in another, and
asks the host in between without the mutex; `ProbeAll` starts one such probe for every host that is
registered when it begins, and waits for them.

What comes from outside: whether a host is reachable, and what a probe of it finds.

A registered host always has a state (`Stated`). The converse fails when a host is removed while a
probe of it is under way, since the probe does not look again before it records what it found
(`state_of_removed_host`); it holds as long as no probe records a state for a host that is gone
(`states_iff_registered`).
-/

namespace Containers.Remote

open Go ThreadSystem Sections AList

/-- `HostState`. -/
inductive HostState where
  | online
  | offline
  | degraded
  | unknown
  deriving DecidableEq, Repr

namespace HostStates

/-! ### The sections -/

/-- **What the calls share**: the registry, the states by name, and for each `ProbeAll` the number
of probes that it still waits for and what they have found. -/
structure Memory where
  registry : DefaultHostManager := .newHostManager
  states : GoMap String HostState := ∅
  waiting : ℕ → ℕ := fun _ => 0
  results : ℕ → GoMap String HostResources := fun _ => ∅
  /-- The number of `ProbeAll` calls that have started their probes. -/
  groups : ℕ := 0

abbrev Found := Except String HostResources

/-- Where a `ProbeHost` is. -/
inductive ProbePoint where
  | lookup
  | reach (host : RemoteHost)
  | probe (host : RemoteHost)
  | record (state : HostState) (found : Found)

/-- What a call returns. -/
inductive Result where
  | err (err : Option String)
  | probed (found : Found)
  | all (found : GoMap String HostResources)

/-- A call in flight, or a goroutine of a `ProbeAll`. -/
inductive Frame where
  | addHost (host : RemoteHost)
  | removeHost (name : String)
  /-- `ProbeHost`: called from outside, or by the `ProbeAll` with this number. -/
  | probeHost (name : String) (p : ProbePoint) (group : Option ℕ)
  /-- A goroutine of a `ProbeAll` whose probe has returned. -/
  | collect (name : String) (found : Found) (group : ℕ)
  | probeAll
  | wait (group : ℕ)
  | ret (r : Result)

/-- What comes from outside. -/
structure Answer where
  isReachable : Bool := true
  probe : Found := .ok {}

variable (m : Memory) (o : Answer)

/-- `ProbeHost` returns. -/
def returned (name : String) (found : Found) (group : Option ℕ) : Frame :=
  group.elim (.ret (.probed found)) (.collect name found)

def stateOf (r : HostResources) : HostState :=
  if r.cpuPercent > 90 ∨ r.memoryPercent > 90 then .degraded else .online

/-- `ProbeHost`. The section that records is `setState`. -/
def probeHostStep (name : String) (group : Option ℕ) : ProbePoint → Memory × List Frame
  | .lookup =>
    match m.registry.getHost name with
    | .error err => (m, [returned name (.error err.message) group])
    | .ok host => (m, [.probeHost name (.reach host) group])
  | .reach host =>
    if o.isReachable then (m, [.probeHost name (.probe host) group])
    else (m, [.probeHost name
      (.record .offline (.error ("host " ++ quoted name ++ " is unreachable"))) group])
  | .probe _ =>
    match o.probe with
    | .error err =>
      (m, [.probeHost name (.record .degraded (.error ("probe " ++ name ++ ": " ++ err))) group])
    | .ok resources => (m, [.probeHost name (.record (stateOf resources) (.ok resources)) group])
  | .record state found =>
    ({ m with states := m.states.insert name state }, [returned name found group])

/-- `ProbeAll`, up to its wait. -/
def probeAllStep : Memory × List Frame :=
  ({ m with
      waiting := Function.update m.waiting m.groups m.registry.listHosts.length
      results := Function.update m.results m.groups ∅
      groups := m.groups + 1 },
    m.registry.listHosts.map (fun host => .probeHost host.name .lookup (some m.groups)) ++
      [.wait m.groups])

/-- The end of a goroutine of a `ProbeAll`. -/
def collectStep (name : String) (found : Found) (group : ℕ) : Memory :=
  { m with
    waiting := Function.update m.waiting group (m.waiting group - 1)
    results := found.toOption.elim m.results fun resources =>
      Function.update m.results group ((m.results group).insert name resources) }

def step : Frame → Option (Memory × List Frame)
  | .addHost host =>
    match m.registry.addHost host with
    | .error err => some (m, [.ret (.err (some err.message))])
    | .ok registry =>
      some ({ m with registry := registry, states := m.states.insert host.name .unknown },
        [.ret (.err none)])
  | .removeHost name =>
    match m.registry.removeHost name with
    | .error err => some (m, [.ret (.err (some err.message))])
    | .ok registry =>
      some ({ m with registry := registry, states := m.states.erase name }, [.ret (.err none)])
  | .probeHost name p group => some (probeHostStep m o name group p)
  | .collect name found group => some (collectStep m name found group, [])
  | .probeAll => some (probeAllStep m)
  | .wait group => if m.waiting group = 0 then some (m, [.ret (.all (m.results group))]) else none
  | .ret _ => some (m, [])

/-- What is called. -/
inductive Call where
  | addHost (host : RemoteHost)
  | removeHost (name : String)
  | probeHost (name : String)
  | probeAll

def Call.frame : Call → Frame
  | .addHost host => .addHost host
  | .removeHost name => .removeHost name
  | .probeHost name => .probeHost name .lookup none
  | .probeAll => .probeAll

/-- **The host manager, section by section.** -/
def hostManager : Sections Memory Frame Answer Call where
  call _ c := c.frame
  step := step

/-- `HostState`: what is read off the states. -/
def hostState (name : String) : HostState := (m.states.lookup name).getD .unknown

/-! ### What a section does to the maps -/

variable {m o} {m' : Memory} {f : Frame} {made : List Frame}

/-- **What a section does to the two maps**: nothing, or it registers a host, removes one, or
records a state. -/
theorem step_cases (h : step m o f = some (m', made)) :
    m'.registry = m.registry ∧ m'.states = m.states ∨
    (∃ host, m'.registry.hosts = m.registry.hosts.insert host.name host ∧
      m'.states = m.states.insert host.name .unknown) ∨
    (∃ name, m'.registry.hosts = m.registry.hosts.erase name ∧ m'.states = m.states.erase name) ∨
    ∃ name state found group, f = .probeHost name (.record state found) group ∧
      m'.registry = m.registry ∧ m'.states = m.states.insert name state := by
  cases f with
  | addHost host =>
    rw [step] at h
    split at h <;> cases h
    · exact .inl ⟨rfl, rfl⟩
    · rename_i registry hadd
      exact .inr (.inl ⟨host, DefaultHostManager.hosts_of_addHost hadd, rfl⟩)
  | removeHost name =>
    rw [step] at h
    split at h <;> cases h
    · exact .inl ⟨rfl, rfl⟩
    · rename_i registry hremove
      exact .inr (.inr (.inl ⟨name, DefaultHostManager.hosts_of_removeHost hremove, rfl⟩))
  | probeHost name p group =>
    cases p with
    | lookup =>
      rw [step, probeHostStep] at h
      split at h <;> cases h <;> exact .inl ⟨rfl, rfl⟩
    | reach host =>
      rw [step, probeHostStep] at h
      split_ifs at h <;> cases h <;> exact .inl ⟨rfl, rfl⟩
    | probe host =>
      rw [step, probeHostStep] at h
      split at h <;> cases h <;> exact .inl ⟨rfl, rfl⟩
    | record state found =>
      cases h
      exact .inr (.inr (.inr ⟨name, state, found, group, rfl, rfl, rfl⟩))
  | wait group =>
    rw [step] at h
    split_ifs at h
    cases h
    exact .inl ⟨rfl, rfl⟩
  | collect | probeAll | ret =>
    cases h
    exact .inl ⟨rfl, rfl⟩

/-! ### The two directions -/

/-- **Every registered host has a state.** -/
def Stated (m : Memory) : Prop := ∀ name ∈ m.registry.hosts, name ∈ m.states

def Owned (m : Memory) : Prop := ∀ name ∈ m.states, name ∈ m.registry.hosts

theorem stated_step (hm : Stated m) (h : step m o f = some (m', made)) : Stated m' := by
  intro n hn
  rcases step_cases h with ⟨hhosts, hstates⟩ | ⟨host, hhosts, hstates⟩ | ⟨name, hhosts, hstates⟩ |
    ⟨name, state, found, group, -, hhosts, hstates⟩
  · rw [hhosts] at hn
    rw [hstates]
    exact hm n hn
  · rw [hhosts] at hn
    rw [hstates, mem_insert]
    exact (mem_insert _).mp hn |>.imp_right (hm n)
  · rw [hhosts, mem_erase] at hn
    rw [hstates, mem_erase]
    exact ⟨hn.1, hm n hn.2⟩
  · rw [hhosts] at hn
    rw [hstates, mem_insert]
    exact .inr (hm n hn)

/-- A probe records a state only while its host is registered. -/
def StillRegistered : Condition Memory Frame Answer
  | m, _, .probeHost name (.record _ _) _, _ => name ∈ m.registry.hosts
  | _, _, _, _ => True

theorem owned_step {F : List Frame} (hm : Owned m) (hregistered : StillRegistered m F f o)
    (h : step m o f = some (m', made)) : Owned m' := by
  intro n hn
  rcases step_cases h with ⟨hhosts, hstates⟩ | ⟨host, hhosts, hstates⟩ | ⟨name, hhosts, hstates⟩ |
    ⟨name, state, found, group, rfl, hhosts, hstates⟩
  · rw [hstates] at hn
    rw [hhosts]
    exact hm n hn
  · rw [hstates] at hn
    rw [hhosts, mem_insert]
    exact (mem_insert _).mp hn |>.imp_right (hm n)
  · rw [hstates, mem_erase] at hn
    rw [hhosts, mem_erase]
    exact ⟨hn.1, hm n hn.2⟩
  · rw [hstates] at hn
    rw [hhosts]
    rcases (mem_insert _).mp hn with rfl | hn
    · exact hregistered
    · exact hm n hn

/-- **A registered host has a state**, in every interleaving that meets whatever condition. -/
theorem stated_of_reached {K : Condition Memory Frame Answer} {s : State Memory Frame}
    (h : hostManager.Reached K {} s) : Stated s.memory := by
  refine h.induction (I := fun m _ => Stated m) ?_ ?_ ?_
  · exact fun name hname => absurd hname (notMem_empty name)
  · exact fun m F c hm => hm
  · exact fun m A f B o m' made hm _ => stated_step hm

instance (m : Memory) (F : List Frame) (f : Frame) (o : Answer) :
    Decidable (StillRegistered m F f o) :=
  match f with
  | .probeHost name (.record _ _) _ => inferInstanceAs (Decidable (name ∈ m.registry.hosts))
  | .addHost _ | .removeHost _ | .probeHost _ .lookup _ | .probeHost _ (.reach _) _ |
    .probeHost _ (.probe _) _ | .collect _ _ _ | .probeAll | .wait _ | .ret _ => .isTrue trivial

/-- A host, registered, and a probe of it up to where it records what it found. -/
def probeGpu (o : Answer) (rest : List (Action (ℕ × Answer) Call)) :
    List (Action (ℕ × Answer) Call) :=
  .call (.addHost { name := "gpu", address := "10.0.0.1", user := "ops" }) :: .step 0 (0, {}) ::
    .step 0 (0, {}) :: .call (.probeHost "gpu") :: .step 1 (0, o) :: .step 1 (0, o) :: rest

end HostStates

open HostStates

/-- **The hosts that have a state are the registered ones**, in every state of every interleaving in
which no probe records a state for a host that is gone. -/
theorem states_iff_registered {s : State Memory Frame}
    (h : hostManager.Reached StillRegistered {} s) (name : String) :
    name ∈ s.memory.states ↔ name ∈ s.memory.registry.hosts := by
  have howned : Owned s.memory := by
    refine h.induction (I := fun m _ => Owned m) ?_ ?_ ?_
    · exact fun name hname => absurd hname (notMem_empty name)
    · exact fun m F c hm => hm
    · exact fun m A f B o m' made => owned_step
  exact ⟨howned name, stated_of_reached h name⟩

/-- A probe, and the host removed after it has recorded. -/
theorem states_iff_registered_gpu : ∃ s, hostManager.Reached StillRegistered {} s ∧
    s.memory.registry.hosts = ∅ ∧ "gpu" ∉ s.memory.states := by
  obtain ⟨s, hs, hentries⟩ : ∃ s, hostManager.Reached StillRegistered {} s ∧
      s.memory.registry.hosts.entries = [] :=
    Reached.of_run (probeGpu {} [.step 1 (0, {}), .step 1 (0, {}), .step 1 (0, {}),
      .call (.removeHost "gpu"), .step 2 (0, {}), .step 2 (0, {})]) (by decide +kernel)
  have hempty : s.memory.registry.hosts = ∅ := ext hentries
  refine ⟨s, hs, hempty, fun hmem => ?_⟩
  have hhost := (states_iff_registered hs "gpu").mp hmem
  rw [hempty] at hhost
  exact notMem_empty _ hhost

/-- **A host that is removed during a probe keeps a state**: all calls have returned, and the state
of a host that is not registered reads `offline`. -/
theorem state_of_removed_host : ∃ s, hostManager.Reached anyhow {} s ∧ s.frames = [] ∧
    "gpu" ∉ s.memory.registry.hosts ∧ "gpu" ∈ s.memory.states ∧
    hostState s.memory "gpu" = .offline := by
  exact Reached.of_run (probeGpu { isReachable := false } [.call (.removeHost "gpu"),
    .step 2 (0, {}), .step 2 (0, {}), .step 1 (0, {}), .step 1 (0, {})]) (by decide +kernel)

end Containers.Remote
