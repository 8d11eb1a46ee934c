import Containers.Lib.Sections
import Containers.Network.TunnelManager

/-!
# Tunnels, section by section

`DefaultTunnelManager` of `pkg/network/tunnel.go` with calls that overlap: the map of the tunnels
has its mutex and the allocator has another, so `CreateTunnel`, `CloseTunnel` and the reaper of a
tunnel whose process has exited go through their sections one at a time and others run in between.

The code states its invariant beside `reapTunnel`: *an entry in the map, if and only if its port is
still allocated*. A port number that is worked on goes through stages (`Stage`), and each stage
belongs to the call that brought the port there. So the invariant holds when nothing is in flight,
if a port number is worked on by one call at a time, and its tunnel is found again under its number
(`tunnels_iff_allocated`). Neither is seen to by the code: a tunnel can be closed before its port is
marked, and two texts can stand for one number (`port_leaked`).

What comes from outside: the host registry, the ports that can be listened on, whether an ssh
process starts and how it exits, and whether its context is cancelled by then. The arguments of ssh,
times and log lines are left out.
-/

namespace Containers.Network

open Go Remote ThreadSystem Sections List AList Option

variable {hostName : String} {spec : TunnelSpec} {auto : ℤ}

namespace TunnelCalls

variable {err : Option String} {a : PortAllocator}

/-! ### The sections -/

/-- The state of a tunnel. -/
inductive TunnelState where
  | active
  | failed
  deriving DecidableEq

/-- An entry of the map, with the process that carries the tunnel. -/
structure TunnelEntry where
  info : TunnelInfo
  state : TunnelState
  cmd : ℕ

variable {entry : TunnelEntry}

/-- **What the calls share**: the map of the tunnels and the allocator, each behind a mutex of its
own; and the number of processes that were started. -/
structure Memory where
  tunnels : GoMap String TunnelEntry := ∅
  allocator : PortAllocator
  started : ℕ := 0

/-- Where a `CreateTunnel` is; `auto` is the port that was allocated for it, or -1. -/
inductive CreatePoint where
  | enter
  | allocate (host : RemoteHost)
  | start (host : RemoteHost) (auto : ℤ)
  | insert (auto : ℤ) (cmd : ℕ)
  /-- It has failed, and gives the port back that was allocated for it. -/
  | giveBack (auto : ℤ) (err : String)
  /-- Its tunnel is entered, and the port that it was given is still to be marked. -/
  | mark (cmd : ℕ)

/-- A call or a reaper in flight. -/
inductive Frame where
  | create (hostName : String) (spec : TunnelSpec) (p : CreatePoint)
  /-- `CloseTunnel`: alone, or from a loop over further ports. -/
  | close (localPort : String) (rest : Option (List String))
  /-- `CloseTunnel`, after it has taken the tunnel out of the map. -/
  | release (localPort : String) (rest : Option (List String))
  /-- `CloseAll`, or `CloseAllForHost`. -/
  | closeAll (hostName : Option String)
  | closing (ports : List String)
  /-- The reaper of a tunnel, which waits for its process. -/
  | reap (localPort : String) (cmd : ℕ)
  /-- The reaper, after it has taken the tunnel out of the map. -/
  | reaped (localPort : String)
  | ret (info : Option TunnelInfo) (err : Option String)

/-- What comes from outside. -/
structure Answer where
  getHost : Except String (Option RemoteHost) := .ok none
  available : ℤ → Bool := fun _ => true
  /-- The error with which a process fails to start. -/
  start : Option String := none
  /-- Whether the local port is seen bound in time. -/
  bound : Bool := true
  /-- The error with which a process exits, and whether its context is cancelled by then. -/
  waitErr : Option String := none
  cancelled : Bool := false
  /-- Which of the ports that are left a loop goes on with. -/
  pick : ℕ := 0

variable (m : Memory) (o : Answer)

/-- `isPortAvailable`: no socket has a number beyond these. -/
def isPortAvailable (port : ℤ) : Bool := decide (0 ≤ port ∧ port ≤ 65535) && o.available port

def Answer.died (o : Answer) : Bool := o.waitErr.isSome && !o.cancelled

/-- A `CreateTunnel` that has failed. -/
def createFailed (hostName : String) (spec : TunnelSpec) (auto : ℤ) (err : String) : Frame :=
  if 0 ≤ auto then .create hostName spec (.giveBack auto err) else .ret none (some err)

/-- `CreateTunnel`. -/
def createStep (hostName : String) (spec : TunnelSpec) :
    CreatePoint → Option (Memory × List Frame)
  | .enter =>
    match o.getHost with
    | .error err => some (m, [.ret none (some ("get host " ++ hostName ++ ": " ++ err))])
    | .ok none => some (m, [.ret none (some ("host " ++ hostName ++ " not found"))])
    | .ok (some host) =>
      if (tunnelDestination host).toList.head? = some '-' then
        some (m, [.ret none (some ("refusing ssh tunnel destination \"" ++ tunnelDestination host ++
          "\" that begins with '-' (would be parsed as an ssh option — argument injection)"))])
      else if spec.localPort = "" then some (m, [.create hostName spec (.allocate host)])
      else some (m, [.create hostName spec (.start host (-1))])
  | .allocate host =>
    match m.allocator.allocate (isPortAvailable o) spec.description with
    | (.error err, allocator) =>
      some ({ m with allocator := allocator }, [.ret none (some ("allocate port: " ++ err))])
    | (.ok port, allocator) =>
      some ({ m with allocator := allocator },
        [.create hostName { spec with localPort := toString port } (.start host port)])
  | .start _ auto =>
    match o.start with
    | some err =>
      some (m, [createFailed hostName spec auto ("start tunnel to " ++ hostName ++ ": " ++ err)])
    | none =>
      some ({ m with started := m.started + 1 },
        [.create hostName spec (.insert auto m.started)])
  | .insert auto cmd =>
    if spec.localPort ∈ m.tunnels then
      some (m, [createFailed hostName spec auto
        ("tunnel already active on local port " ++ spec.localPort)])
    else
      -- only the bind of a local forward is waited for
      let state := if spec.direction = .localForward ∧ (atoi spec.localPort.toList).isSome ∧
        o.bound = false then TunnelState.failed else TunnelState.active
      let entry : TunnelEntry := ⟨⟨spec, hostName⟩, state, cmd⟩
      some ({ m with tunnels := m.tunnels.insert spec.localPort entry },
        if auto < 0 then [.create hostName spec (.mark cmd)]
        else [.ret (some entry.info) none, .reap spec.localPort cmd])
  | .giveBack auto err =>
    some ({ m with allocator := m.allocator.release auto }, [.ret none (some err)])
  | .mark cmd =>
    some ({ m with allocator := (atoi spec.localPort.toList).elim m.allocator fun port =>
        m.allocator.markAllocated port spec.description },
      [.ret (some ⟨spec, hostName⟩) none, .reap spec.localPort cmd])

/-- What comes after a `CloseTunnel`: a loop takes no notice that a tunnel is gone already. -/
def closed (rest : Option (List String)) (err : Option String) : Frame :=
  rest.elim (.ret none err) .closing

def reapStep (localPort : String) (cmd : ℕ) : Memory × List Frame :=
  match m.tunnels.lookup localPort with
  | none => (m, [])
  | some entry =>
    if entry.cmd ≠ cmd then (m, [])
    else if o.died then
      ({ m with tunnels := m.tunnels.insert localPort { entry with state := .failed } }, [])
    else ({ m with tunnels := m.tunnels.erase localPort }, [.reaped localPort])

def step : Frame → Option (Memory × List Frame)
  | .create hostName spec p => createStep m o hostName spec p
  | .close localPort rest =>
    if localPort ∈ m.tunnels then
      some ({ m with tunnels := m.tunnels.erase localPort }, [.release localPort rest])
    else some (m, [closed rest (some ("no tunnel on port " ++ localPort))])
  | .release localPort rest =>
    some ({ m with allocator := m.allocator.release (atoiValue localPort.toList) },
      [closed rest none])
  | .closeAll hostName =>
    some (m, [.closing ((m.tunnels.entries.filter fun e =>
      hostName.all fun name => e.2.info.hostName = name).map (·.1))])
  | .closing [] => some (m, [.ret none none])
  | .closing (port :: ports) =>
    (port :: ports)[o.pick]?.map fun next =>
      (m, [.close next (some ((port :: ports).eraseIdx o.pick))])
  | .reap localPort cmd => some (reapStep m o localPort cmd)
  | .reaped localPort =>
    some ({ m with allocator := (atoi localPort.toList).elim m.allocator m.allocator.release }, [])
  | .ret _ _ => some (m, [])

/-- What is called. -/
inductive Call where
  | createTunnel (hostName : String) (spec : TunnelSpec)
  | closeTunnel (localPort : String)
  | closeAll
  | closeAllForHost (hostName : String)

def Call.frame : Call → Frame
  | .createTunnel hostName spec => .create hostName spec .enter
  | .closeTunnel localPort => .close localPort none
  | .closeAll => .closeAll none
  | .closeAllForHost hostName => .closeAll (some hostName)

/-- **The tunnel manager, section by section.** -/
def tunnelManager : Sections Memory Frame Answer Call where
  call _ c := c.frame
  step := step

/-- `NewTunnelManager`, with the range of its ports. -/
def newTunnelManager (start stop : ℤ) : Memory := { allocator := newPortAllocator start stop }

/-! ### The stages of a port number -/

variable {m o} {m' : Memory} {A B F made : List Frame} {f : Frame} {p q : ℤ} {key : String}

def HasTunnel (m : Memory) (p : ℤ) : Prop := ∃ key ∈ m.tunnels.keys, atoi key.toList = some p

instance : Decidable (HasTunnel m p) :=
  inferInstanceAs (Decidable (∃ key ∈ m.tunnels.keys, atoi key.toList = some p))

theorem hasTunnel_insert (htunnels : m'.tunnels = m.tunnels.insert key entry) :
    HasTunnel m' q ↔ atoi key.toList = some q ∨ HasTunnel m q := by
  have hkeys : ∀ key', key' ∈ m'.tunnels.keys ↔ key' = key ∨ key' ∈ m.tunnels.keys := fun key' => by
    rw [htunnels]
    exact mem_insert m.tunnels
  constructor
  · rintro ⟨key', hkey', hq⟩
    rcases (hkeys key').mp hkey' with rfl | hkey'
    · exact .inl hq
    · exact .inr ⟨key', hkey', hq⟩
  · rintro (hq | ⟨key', hkey', hq⟩)
    · exact ⟨key, (hkeys key).mpr (.inl rfl), hq⟩
    · exact ⟨key', (hkeys key').mpr (.inr hkey'), hq⟩

/-- A port number is spelled in one way among the tunnels. -/
def OneSpelling (m : Memory) : Prop :=
  ∀ key ∈ m.tunnels.keys, ∀ key' ∈ m.tunnels.keys, ∀ p, atoi key.toList = some p →
    atoi key'.toList = some p → key = key'

theorem mem_keys_erase (htunnels : m'.tunnels = m.tunnels.erase key) (key' : String) :
    key' ∈ m'.tunnels.keys ↔ key' ≠ key ∧ key' ∈ m.tunnels.keys := by
  rw [htunnels]
  exact mem_erase

theorem hasTunnel_erase (hone : OneSpelling m) (hkey : key ∈ m.tunnels)
    (htunnels : m'.tunnels = m.tunnels.erase key) :
    HasTunnel m' q ↔ atoi key.toList ≠ some q ∧ HasTunnel m q := by
  constructor
  · rintro ⟨key', hkey', hq⟩
    obtain ⟨hne, hkey'⟩ := (mem_keys_erase htunnels key').mp hkey'
    exact ⟨fun hq' => hne (hone key' hkey' key hkey q hq hq'), key', hkey', hq⟩
  · rintro ⟨hne, key', hkey', hq⟩
    refine ⟨key', (mem_keys_erase htunnels key').mpr ⟨?_, hkey'⟩, hq⟩
    rintro rfl
    exact hne hq

theorem OneSpelling.erase (h : OneSpelling m) (htunnels : m'.tunnels = m.tunnels.erase key) :
    OneSpelling m' := fun key₁ h₁ key₂ h₂ =>
  h key₁ ((mem_keys_erase htunnels key₁).mp h₁).2 key₂ ((mem_keys_erase htunnels key₂).mp h₂).2

theorem OneSpelling.insert (h : OneSpelling m)
    (hfree : ∀ p, atoi key.toList = some p → ¬HasTunnel m p)
    (htunnels : m'.tunnels = m.tunnels.insert key entry) : OneSpelling m' := by
  have hkeys : ∀ key' ∈ m'.tunnels.keys, key' = key ∨ key' ∈ m.tunnels.keys := fun key' hkey' => by
    rw [htunnels] at hkey'
    exact (mem_insert m.tunnels).mp hkey'
  intro key₁ h₁ key₂ h₂ p hp₁ hp₂
  rcases hkeys key₁ h₁ with rfl | h₁ <;> rcases hkeys key₂ h₂ with rfl | h₂
  · rfl
  · exact absurd ⟨key₂, h₂, hp₂⟩ (hfree p hp₁)
  · exact absurd ⟨key₁, h₁, hp₁⟩ (hfree p hp₂)
  · exact h key₁ h₁ key₂ h₂ p hp₁ hp₂

/-- **The stages of a port number** that is worked on. -/
inductive Stage where
  | reserved
  | entered
  | removed
  deriving DecidableEq

variable {st : Stage}

def Stage.Sound (m : Memory) (p : ℤ) : Stage → Prop
  | .reserved => p ∈ m.allocator.allocated ∧ ¬HasTunnel m p
  | .entered => HasTunnel m p
  | .removed => ¬HasTunnel m p

/-- The port number that a call or a reaper works on, and its stage. -/
def Frame.stage : Frame → Option (ℤ × Stage)
  | .create _ _ (.start _ auto) | .create _ _ (.insert auto _) | .create _ _ (.giveBack auto _) =>
    if 0 ≤ auto then some (auto, .reserved) else none
  | .create _ spec (.mark _) => (atoi spec.localPort.toList).map (·, .entered)
  | .release localPort _ => some (atoiValue localPort.toList, .removed)
  | .reaped localPort => (atoi localPort.toList).map (·, .removed)
  | _ => none

/-- A port that was allocated for a tunnel is that of its tunnel. -/
def Frame.Spelled : Frame → Prop
  | .create _ spec (.start _ auto) | .create _ spec (.insert auto _) =>
    0 ≤ auto → atoi spec.localPort.toList = some auto
  | .create _ _ (.giveBack auto _) => 0 ≤ auto
  | _ => True

def Alone (F : List Frame) (p : ℤ) : Prop := ∀ x ∈ F.filterMap Frame.stage, x.1 ≠ p

instance : Decidable (Alone F p) :=
  inferInstanceAs (Decidable (∀ x ∈ F.filterMap Frame.stage, x.1 ≠ p))

/-- **A port number is worked on by one call at a time**, from the section that takes it on; a
tunnel is entered under a number that has none under another spelling; and a `CloseTunnel` whose
port is not a number does not release a port that is allocated. -/
def OneAtATime : Condition Memory Frame Answer := fun m F f o =>
  match f with
  | .create _ spec (.allocate _) =>
    ∀ p ∈ (m.allocator.allocate (isPortAvailable o) spec.description).1.toOption, Alone F p
  | .create _ spec (.insert auto _) =>
    auto < 0 → spec.localPort ∉ m.tunnels →
      ∀ p ∈ atoi spec.localPort.toList, Alone F p ∧ ¬HasTunnel m p
  | .close localPort _ =>
    localPort ∈ m.tunnels → Alone F (atoiValue localPort.toList) ∧
      (atoi localPort.toList = none → atoiValue localPort.toList ∉ m.allocator.allocated)
  | .reap localPort cmd =>
    (∃ entry ∈ m.tunnels.lookup localPort, entry.cmd = cmd) → o.died = false →
      ∀ p ∈ atoi localPort.toList, Alone F p
  | _ => True

/-- **The books of the ports**: a number that nobody works on has a tunnel if and only if it is
allocated. -/
structure Balanced (m : Memory) (F : List Frame) : Prop where
  nodup : ((F.filterMap Frame.stage).map Prod.fst).Nodup
  sound : ∀ x ∈ F.filterMap Frame.stage, x.2.Sound m x.1
  idle : ∀ p, Alone F p → (HasTunnel m p ↔ p ∈ m.allocator.allocated)
  one : OneSpelling m
  spelled : ∀ f ∈ F, f.Spelled

theorem Stage.Sound.congr (h : st.Sound m p) (htunnel : HasTunnel m' p ↔ HasTunnel m p)
    (halloc : p ∈ m'.allocator.allocated ↔ p ∈ m.allocator.allocated) : st.Sound m' p := by
  cases st with
  | reserved => exact ⟨halloc.mpr h.1, fun ht => h.2 (htunnel.mp ht)⟩
  | entered => exact htunnel.mpr h
  | removed => exact fun ht => h (htunnel.mp ht)

theorem Balanced.of_same (h : Balanced m (A ++ f :: B))
    (hstage : made.filterMap Frame.stage = f.stage.toList)
    (htunnel : ∀ q, HasTunnel m' q ↔ HasTunnel m q)
    (halloc : ∀ q, q ∈ m'.allocator.allocated ↔ q ∈ m.allocator.allocated) (hone : OneSpelling m')
    (hspelled : ∀ g ∈ made, g.Spelled) : Balanced m' (A ++ (made ++ B)) := by
  have hperm := held_same_perm A B hstage
  refine ⟨(hperm.map Prod.fst).nodup_iff.mpr h.nodup, fun x hx => ?_, fun p hp => ?_, hone,
    forall_mem_made (forall_mem_others h.spelled) hspelled⟩
  · exact (h.sound x (hperm.mem_iff.mp hx)).congr (htunnel x.1) (halloc x.1)
  · rw [htunnel, halloc]
    exact h.idle p fun x hx => hp x (hperm.mem_iff.mpr hx)

theorem Balanced.pass {g : Frame} (h : Balanced m (A ++ f :: B)) (hstage : g.stage = f.stage)
    (hspelled : g.Spelled) : Balanced m (A ++ ([g] ++ B)) :=
  h.of_same (by rw [held_one, hstage]) (fun _ => .rfl) (fun _ => .rfl) h.one
    (forall_mem_singleton.mpr hspelled)

theorem Balanced.of_end (h : Balanced m (A ++ f :: B)) (hf : f.stage = none) :
    Balanced m (A ++ ([] ++ B)) :=
  h.of_same (by rw [hf]; rfl) (fun _ => .rfl) (fun _ => .rfl) h.one (by simp)

/-- **A section that works on one port number**: it goes on at a stage that is known, or leaves the
number with its books in order. -/
theorem Balanced.of_work (h : Balanced m (A ++ f :: B)) (hf : ∀ x ∈ f.stage, x.1 = p)
    (halone : Alone (A ++ B) p)
    (hmade : made.filterMap Frame.stage = [] ∧ (HasTunnel m' p ↔ p ∈ m'.allocator.allocated) ∨
      ∃ st : Stage, made.filterMap Frame.stage = [(p, st)] ∧ st.Sound m' p)
    (htunnel : ∀ q ≠ p, HasTunnel m' q ↔ HasTunnel m q)
    (halloc : ∀ q ≠ p, q ∈ m'.allocator.allocated ↔ q ∈ m.allocator.allocated)
    (hone : OneSpelling m') (hspelled : ∀ g ∈ made, g.Spelled) :
    Balanced m' (A ++ (made ++ B)) := by
  have hbefore := held_perm A B f Frame.stage
  have hafter := held_made_perm A B made Frame.stage
  have hrest : ∀ x ∈ (A ++ B).filterMap Frame.stage, x.2.Sound m' x.1 := fun x hx =>
    (h.sound x (hbefore.mem_iff.mpr (mem_append_right _ hx))).congr (htunnel x.1 (halone x hx))
      (halloc x.1 (halone x hx))
  have hnodup : (((A ++ B).filterMap Frame.stage).map Prod.fst).Nodup := by
    have hnodup := (hbefore.map Prod.fst).nodup_iff.mp h.nodup
    rw [map_append] at hnodup
    exact (nodup_append.mp hnodup).2.1
  -- a number other than `p` that is free afterwards was free before
  have hidle : ∀ q ≠ p, Alone (A ++ (made ++ B)) q →
      (HasTunnel m' q ↔ q ∈ m'.allocator.allocated) := by
    intro q hq hqalone
    rw [htunnel q hq, halloc q hq]
    refine h.idle q fun x hx => ?_
    rcases mem_append.mp (hbefore.mem_iff.mp hx) with hx | hx
    · rw [hf x (mem_toList.mp hx)]
      exact hq.symm
    · exact hqalone x (hafter.mem_iff.mpr (mem_append_right _ hx))
  have hspelled' := forall_mem_made
    (forall_mem_others h.spelled) hspelled
  rcases hmade with ⟨hnone, hp⟩ | ⟨st, hst, hsound⟩
  · rw [hnone] at hafter
    refine ⟨(hafter.map Prod.fst).nodup_iff.mpr hnodup, fun x hx => hrest x (hafter.mem_iff.mp hx),
      fun q hqalone => ?_, hone, hspelled'⟩
    by_cases hq : q = p
    · rw [hq]
      exact hp
    · exact hidle q hq hqalone
  · rw [hst] at hafter
    refine ⟨(hafter.map Prod.fst).nodup_iff.mpr (nodup_cons.mpr ⟨fun hmem => ?_, hnodup⟩),
      fun x hx => ?_, fun q hqalone => ?_, hone, hspelled'⟩
    · obtain ⟨x, hx, hxp⟩ := mem_map.mp hmem
      exact halone x hx hxp
    · rcases mem_cons.mp (hafter.mem_iff.mp hx) with rfl | hx
      · exact hsound
      · exact hrest x hx
    · refine hidle q ?_ hqalone
      rintro rfl
      exact hqalone (q, st) (hafter.mem_iff.mpr mem_cons_self) rfl

theorem Balanced.alone (h : Balanced m (A ++ f :: B)) (hf : f.stage = some (p, st)) :
    Alone (A ++ B) p ∧ st.Sound m p := by
  have hbefore := held_perm A B f Frame.stage
  rw [hf] at hbefore
  have hnodup := (hbefore.map Prod.fst).nodup_iff.mp h.nodup
  refine ⟨fun x hx heq => ?_, h.sound (p, st) (hbefore.mem_iff.mpr mem_cons_self)⟩
  exact (nodup_cons.mp hnodup).1 (mem_map.mpr ⟨x, hx, heq⟩)

theorem Alone.rest (h : Alone (A ++ f :: B) p) : Alone (A ++ B) p := fun x hx =>
  h x ((held_perm A B f Frame.stage).mem_iff.mpr (mem_append_right _ hx))

/-! ### Each section keeps the books -/

theorem mem_release : q ∈ (a.release p).allocated ↔ q ≠ p ∧ q ∈ a.allocated :=
  mem_erase

theorem mem_markAllocated {description : String} :
    q ∈ (a.markAllocated p description).allocated ↔ q = p ∨ q ∈ a.allocated :=
  mem_insert a.allocated

theorem balanced_release (h : Balanced m (A ++ f :: B)) (hf : f.stage = some (p, .removed))
    (hmade : made.filterMap Frame.stage = []) (hspelled : ∀ g ∈ made, g.Spelled) :
    Balanced { m with allocator := m.allocator.release p } (A ++ (made ++ B)) := by
  obtain ⟨halone, hsound⟩ := h.alone hf
  refine h.of_work (by simp [hf]) halone (.inl ⟨hmade, ?_⟩) (fun q _ => Iff.rfl)
    (fun q hq => ?_) h.one hspelled
  · exact iff_of_false hsound fun hmem => (mem_release.mp hmem).1 rfl
  · rw [mem_release]
    exact and_iff_right hq

theorem balanced_remove (h : Balanced m (A ++ f :: B)) (hf : f.stage = none)
    (hkey : key ∈ m.tunnels) (hmade : made.filterMap Frame.stage =
      ((atoi key.toList).map fun p => (p, Stage.removed)).toList)
    (halone : ∀ p ∈ atoi key.toList, Alone (A ++ f :: B) p) (hspelled : ∀ g ∈ made, g.Spelled) :
    Balanced { m with tunnels := m.tunnels.erase key } (A ++ (made ++ B)) := by
  have htunnel : ∀ q, HasTunnel { m with tunnels := m.tunnels.erase key } q ↔
      atoi key.toList ≠ some q ∧ HasTunnel m q := fun q => hasTunnel_erase h.one hkey rfl
  rcases hp : atoi key.toList with _ | p
  · rw [hp] at hmade
    refine h.of_same (by rw [hmade, hf]; rfl) (fun q => ?_) (fun q => Iff.rfl) (h.one.erase rfl)
      hspelled
    rw [htunnel, hp]
    exact and_iff_right (some_ne_none q).symm
  · rw [hp] at hmade
    refine h.of_work (p := p) (by simp [hf]) (halone p hp).rest (.inr ⟨.removed, hmade, ?_⟩)
      (fun q hq => ?_) (fun q _ => Iff.rfl) (h.one.erase rfl) hspelled
    · exact fun ht => ((htunnel p).mp ht).1 hp
    · rw [htunnel, hp]
      exact and_iff_right fun heq => hq (some.inj heq).symm

theorem stage_createFailed {err : String} : (createFailed hostName spec auto err).stage =
    if 0 ≤ auto then some (auto, Stage.reserved) else none := by
  rw [createFailed]
  split_ifs with hauto
  · exact if_pos hauto
  · rfl

theorem spelled_createFailed {err : String} : (createFailed hostName spec auto err).Spelled := by
  rw [createFailed]
  split_ifs with hauto
  · exact hauto
  · trivial

theorem balanced_insert {cmd : ℕ}
    (h : Balanced m (A ++ Frame.create hostName spec (.insert auto cmd) :: B))
    (halone : auto < 0 → ∀ p ∈ atoi spec.localPort.toList,
      Alone (A ++ Frame.create hostName spec (.insert auto cmd) :: B) p ∧ ¬HasTunnel m p)
    (info : Option TunnelInfo) :
    Balanced { m with tunnels := m.tunnels.insert spec.localPort entry }
      (A ++ ((if auto < 0 then [.create hostName spec (.mark cmd)]
        else [.ret info none, .reap spec.localPort cmd]) ++ B)) := by
  have htunnel : ∀ q, HasTunnel { m with tunnels := m.tunnels.insert spec.localPort entry } q ↔
      atoi spec.localPort.toList = some q ∨ HasTunnel m q := fun q => hasTunnel_insert rfl
  have hone : (∀ p, atoi spec.localPort.toList = some p → ¬HasTunnel m p) →
      OneSpelling { m with tunnels := m.tunnels.insert spec.localPort entry } := fun hfree =>
    h.one.insert hfree rfl
  split_ifs with hauto
  · -- the port was given by the caller
    have hstage : (Frame.create hostName spec (.insert auto cmd)).stage = none :=
      if_neg (not_le.mpr hauto)
    have hspelled : ∀ g ∈ [Frame.create hostName spec (.mark cmd)], g.Spelled :=
      forall_mem_singleton.mpr trivial
    have hone := hone fun p hp => (halone hauto p hp).2
    rcases hp : atoi spec.localPort.toList with _ | p
    · refine h.of_same ?_ (fun q => ?_) (fun q => Iff.rfl) hone hspelled
      · rw [hstage, held_one, Frame.stage, hp]
        rfl
      · rw [htunnel, hp]
        exact or_iff_right (some_ne_none q).symm
    · refine h.of_work (p := p) (by simp [hstage]) (halone hauto p hp).1.rest
        (.inr ⟨.entered, by simp [Frame.stage, hp], (htunnel p).mpr (.inl hp)⟩) (fun q hq => ?_)
        (fun q _ => Iff.rfl) hone hspelled
      rw [htunnel, hp]
      exact or_iff_right fun heq => hq (some.inj heq).symm
  · -- it was reserved by the call
    have hauto := not_lt.mp hauto
    have hstage : (Frame.create hostName spec (.insert auto cmd)).stage = some (auto, .reserved) :=
      if_pos hauto
    obtain ⟨hrest, hsound⟩ := h.alone hstage
    have hp : atoi spec.localPort.toList = some auto :=
      h.spelled _ mem_subject hauto
    have hone := hone fun p hp' => by
      cases hp.symm.trans hp'
      exact hsound.2
    refine h.of_work (p := auto) (by simp [hstage]) hrest (.inl ⟨rfl, ?_⟩) (fun q hq => ?_)
      (fun q _ => Iff.rfl) hone (by simp [Frame.Spelled])
    · exact iff_of_true ((htunnel auto).mpr (.inl hp)) hsound.1
    · rw [htunnel, hp]
      exact or_iff_right fun heq => hq (some.inj heq).symm

/-- **Every section of a `CreateTunnel` keeps the books.** -/
theorem balanced_createStep {p : CreatePoint}
    (h : Balanced m (A ++ Frame.create hostName spec p :: B))
    (halone : OneAtATime m (A ++ Frame.create hostName spec p :: B) (.create hostName spec p) o)
    (hstep : createStep m o hostName spec p = some (m', made)) :
    Balanced m' (A ++ (made ++ B)) := by
  cases p with
  | enter =>
    rw [createStep] at hstep
    split at hstep
    case h_3 =>
      split_ifs at hstep <;> cases hstep
      · exact h.pass rfl trivial
      · exact h.pass rfl trivial
      · exact h.pass rfl fun hle => absurd hle (by decide)
    all_goals
      cases hstep
      exact h.pass rfl trivial
  | allocate host =>
    rw [createStep] at hstep
    split at hstep
    · rename_i err allocator hfail
      cases hstep
      obtain ⟨rfl, -⟩ := PortAllocator.allocate_eq_error hfail
      exact h.pass rfl trivial
    · rename_i port allocator hok
      cases hstep
      obtain ⟨-, hfree, havailable, rfl⟩ := PortAllocator.allocate_eq_ok hok
      rw [isPortAvailable, Bool.and_eq_true, decide_eq_true_eq] at havailable
      obtain ⟨n, rfl⟩ := Int.eq_ofNat_of_zero_le havailable.1.1
      have hport : Alone (A ++ Frame.create hostName spec (.allocate host) :: B) n :=
        halone n (by rw [hok]; rfl)
      have hnone : ¬HasTunnel m n := fun ht => hfree ((h.idle n hport).mp ht)
      have hstage : [Frame.create hostName { spec with localPort := toString (n : ℤ) }
          (.start host n)].filterMap Frame.stage = [((n : ℤ), Stage.reserved)] := by
        simp [Frame.stage]
      refine h.of_work (p := n) (fun x hx => by cases hx) hport.rest
        (.inr ⟨.reserved, hstage, (mem_insert _).mpr (.inl rfl), hnone⟩) (fun q _ => Iff.rfl)
        (fun q hq => (mem_insert _).trans (or_iff_right hq)) h.one
        (forall_mem_singleton.mpr fun _ => atoi_toString (by omega))
  | start host auto =>
    rw [createStep] at hstep
    split at hstep <;> cases hstep
    · exact h.pass stage_createFailed spelled_createFailed
    · exact h.of_same (held_one _ _) (fun _ => .rfl) (fun _ => .rfl) h.one
        (forall_mem_singleton.mpr
          (h.spelled (.create hostName spec (.start host auto)) mem_subject))
  | insert auto cmd =>
    rw [createStep] at hstep
    by_cases hmem : spec.localPort ∈ m.tunnels
    · rw [if_pos hmem] at hstep
      cases hstep
      exact h.pass stage_createFailed spelled_createFailed
    · rw [if_neg hmem] at hstep
      cases hstep
      exact balanced_insert h (fun hauto => halone hauto hmem) _
  | giveBack auto err =>
    cases hstep
    have hauto : 0 ≤ auto := h.spelled _ mem_subject
    have hstage :
        (Frame.create hostName spec (.giveBack auto err)).stage = some (auto, .reserved) :=
      if_pos hauto
    obtain ⟨hrest, hsound⟩ := h.alone hstage
    refine h.of_work (p := auto) (by simp [hstage]) hrest (.inl ⟨rfl, ?_⟩) (fun q _ => Iff.rfl)
      (fun q hq => ?_) h.one (forall_mem_singleton.mpr trivial)
    · exact iff_of_false hsound.2 fun hmem => (mem_release.mp hmem).1 rfl
    · rw [mem_release]
      exact and_iff_right hq
  | mark cmd =>
    cases hstep
    have hspelled : ∀ g ∈ [Frame.ret (some ⟨spec, hostName⟩) none, .reap spec.localPort cmd],
        g.Spelled := by simp [Frame.Spelled]
    rcases hp : atoi spec.localPort.toList with _ | p
    · refine h.of_same ?_ (fun q => Iff.rfl) (fun q => Iff.rfl) h.one hspelled
      simp [Frame.stage, hp]
    · have hstage : (Frame.create hostName spec (.mark cmd)).stage = some (p, .entered) := by
        simp [Frame.stage, hp]
      obtain ⟨hrest, hsound⟩ := h.alone hstage
      refine h.of_work (p := p) (by simp [hstage]) hrest (.inl ⟨rfl, ?_⟩) (fun q _ => Iff.rfl)
        (fun q hq => ?_) h.one hspelled
      · exact iff_of_true hsound (mem_markAllocated.mpr (.inl rfl))
      · exact mem_markAllocated.trans (or_iff_right hq)

theorem stage_closed {rest : Option (List String)} : (closed rest err).stage = none := by
  rcases rest with _ | rest <;> rfl

theorem spelled_closed {rest : Option (List String)} : (closed rest err).Spelled := by
  rcases rest with _ | rest <;> trivial

theorem balanced_close {rest : Option (List String)}
    (h : Balanced m (A ++ Frame.close key rest :: B)) (hkey : key ∈ m.tunnels)
    (halone : Alone (A ++ Frame.close key rest :: B) (atoiValue key.toList))
    (hnumber : atoi key.toList = none → atoiValue key.toList ∉ m.allocator.allocated) :
    Balanced { m with tunnels := m.tunnels.erase key } (A ++ ([Frame.release key rest] ++ B)) := by
  have hspelled : ∀ g ∈ [Frame.release key rest], g.Spelled := forall_mem_singleton.mpr trivial
  rcases hp : atoi key.toList with _ | p
  · -- the number that is released is not that of the tunnel
    have htunnel : ∀ q, HasTunnel { m with tunnels := m.tunnels.erase key } q ↔ HasTunnel m q := by
      intro q
      rw [hasTunnel_erase h.one hkey rfl, hp]
      exact and_iff_right (some_ne_none q).symm
    have hfree : ¬HasTunnel m (atoiValue key.toList) := fun ht =>
      hnumber hp ((h.idle _ halone).mp ht)
    refine h.of_work (p := atoiValue key.toList) (fun x hx => by cases hx) halone.rest
      (.inr ⟨.removed, rfl, fun ht => hfree ((htunnel _).mp ht)⟩) (fun q _ => htunnel q)
      (fun q _ => Iff.rfl) (h.one.erase rfl) hspelled
  · have hvalue := atoiValue_of_atoi hp
    refine balanced_remove h rfl hkey ?_ (fun q hq => ?_) hspelled
    · rw [hp, held_one, Frame.stage, hvalue]
      rfl
    · cases hp.symm.trans hq
      rwa [← hvalue]

/-- **Every section keeps the books.** -/
theorem balanced_step (h : Balanced m (A ++ f :: B)) (halone : OneAtATime m (A ++ f :: B) f o)
    (hstep : step m o f = some (m', made)) : Balanced m' (A ++ (made ++ B)) := by
  cases f with
  | create hostName spec p => exact balanced_createStep h halone hstep
  | close localPort rest =>
    rw [step] at hstep
    split_ifs at hstep with hkey <;> cases hstep
    · obtain ⟨hrest, hnumber⟩ := halone hkey
      exact balanced_close h hkey hrest hnumber
    · exact h.pass stage_closed spelled_closed
  | release localPort rest =>
    cases hstep
    refine balanced_release h rfl ?_ (forall_mem_singleton.mpr spelled_closed)
    rw [held_one, stage_closed]
    rfl
  | closeAll hostName =>
    cases hstep
    exact h.pass rfl trivial
  | closing ports =>
    cases ports with
    | nil =>
      cases hstep
      exact h.pass rfl trivial
    | cons port ports =>
      obtain ⟨next, -, heq⟩ := map_eq_some_iff.mp hstep
      cases heq
      exact h.pass rfl trivial
  | reap localPort cmd =>
    rw [step, reapStep] at hstep
    split at hstep
    · cases hstep
      exact h.of_end rfl
    · rename_i entry hentry
      split_ifs at hstep with hcmd hdied <;> cases hstep
      · exact h.of_end rfl
      · -- the tunnel stays, as a failed one
        have hkey : localPort ∈ m.tunnels := lookup_isSome.mp (by rw [hentry]; rfl)
        have hkeys : ∀ key, key ∈ (m.tunnels.insert localPort
            { entry with state := .failed }).keys ↔ key ∈ m.tunnels.keys := fun key => by
          refine (mem_insert m.tunnels).trans (or_iff_right_of_imp ?_)
          rintro rfl
          exact hkey
        refine h.of_same rfl (fun q => ?_) (fun q => Iff.rfl) ?_ (by simp)
        · exact exists_congr fun key => and_congr_left' (hkeys key)
        · intro key₁ h₁ key₂ h₂
          exact h.one key₁ ((hkeys key₁).mp h₁) key₂ ((hkeys key₂).mp h₂)
      · have hkey : localPort ∈ m.tunnels := lookup_isSome.mp (by rw [hentry]; rfl)
        exact balanced_remove h rfl hkey (held_one _ _)
          (halone ⟨entry, hentry, not_not.mp hcmd⟩ (Bool.not_eq_true _ ▸ hdied))
          (forall_mem_singleton.mpr trivial)
  | reaped localPort =>
    cases hstep
    rcases hp : atoi localPort.toList with _ | p
    · exact h.of_end (by simp [Frame.stage, hp])
    · exact balanced_release h (by simp [Frame.stage, hp]) rfl (by simp)
  | ret info err =>
    cases hstep
    exact h.of_end rfl

/-- **The books are kept in every run** in which a port number is worked on by one call at a
time. -/
theorem balanced_of_reached {start stop : ℤ} {s : State Memory Frame}
    (h : tunnelManager.Reached OneAtATime (newTunnelManager start stop) s) :
    Balanced s.memory s.frames := by
  refine h.induction ?_ ?_ fun m A f B o m' made => balanced_step
  · refine ⟨nodup_nil, forall_mem_nil _, fun p _ => ?_,
      (forall_mem_nil _), forall_mem_nil _⟩
    refine iff_of_false ?_ not_mem_nil
    rintro ⟨key, hkey, -⟩
    exact absurd hkey not_mem_nil
  · intro m F c h
    have hbegin : c.frame.stage = none ∧ c.frame.Spelled := by
      cases c <;> exact ⟨rfl, trivial⟩
    have hstage := held_call c.frame Frame.stage F hbegin.1
    refine ⟨hstage ▸ h.nodup, hstage ▸ h.sound, fun p hp => h.idle p ?_, h.one,
      forall_mem_call h.spelled hbegin.2⟩
    rw [Alone, ← hstage]
    exact hp

def Frame.waits : Frame → Bool
  | .reap _ _ => true
  | _ => false

theorem stage_of_waits (h : f.waits = true) : f.stage = none := by
  cases f <;> first | rfl | cases h

/-! ### Runs -/

instance (m : Memory) (F : List Frame) (f : Frame) (o : Answer) : Decidable (OneAtATime m F f o) :=
  match f with
  | .create _ spec (.allocate _) => inferInstanceAs (Decidable (∀ p ∈
      (m.allocator.allocate (isPortAvailable o) spec.description).1.toOption, Alone F p))
  | .create _ spec (.insert auto _) => inferInstanceAs (Decidable (auto < 0 →
      spec.localPort ∉ m.tunnels → ∀ p ∈ atoi spec.localPort.toList, Alone F p ∧ ¬HasTunnel m p))
  | .close localPort _ => inferInstanceAs (Decidable (localPort ∈ m.tunnels →
      Alone F (atoiValue localPort.toList) ∧ (atoi localPort.toList = none →
        atoiValue localPort.toList ∉ m.allocator.allocated)))
  | .reap localPort cmd => inferInstanceAs (Decidable ((∃ entry ∈ m.tunnels.lookup localPort,
      entry.cmd = cmd) → o.died = false → ∀ p ∈ atoi localPort.toList, Alone F p))
  | .create _ _ .enter | .create _ _ (.start _ _) | .create _ _ (.giveBack _ _) |
    .create _ _ (.mark _) | .release _ _ | .closeAll _ | .closing _ | .reaped _ | .ret _ _ =>
    .isTrue trivial

def known : Answer :=
  { getHost := .ok (some { name := "gpu", address := "10.0.0.1", user := "ops" }) }

/-- A call `CreateTunnel` on this port, and its sections up to the insertion. -/
def createOn (i : ℕ) (localPort : String) (rest : List (Action (ℕ × Answer) Call)) :
    List (Action (ℕ × Answer) Call) :=
  .call (.createTunnel "gpu" { localPort := localPort }) ::
    .step i (0, known) :: .step i (0, known) :: .step i (0, known) :: rest

def Memory.ports (m : Memory) : List String × List ℤ := (m.tunnels.keys, m.allocator.allocated.keys)

end TunnelCalls

open TunnelCalls

/-- **The invariant of the tunnel manager**: when nothing is in flight but reapers that wait, a port
number has a tunnel if and only if it is allocated – in every run in which a port number is worked
on by one call at a time, is spelled in one way among the tunnels, and no `CloseTunnel` of another
text releases it. -/
theorem tunnels_iff_allocated (start stop : ℤ) {s : State Memory Frame}
    (h : tunnelManager.Reached OneAtATime (newTunnelManager start stop) s)
    (hquiet : ∀ f ∈ s.frames, f.waits = true) (p : ℤ) :
    (∃ key ∈ s.memory.tunnels, atoi key.toList = some p) ↔ p ∈ s.memory.allocator.allocated := by
  refine (balanced_of_reached h).idle p fun x hx => ?_
  obtain ⟨f, hf, hstage⟩ := mem_filterMap.mp hx
  rw [stage_of_waits (hquiet f hf)] at hstage
  cases hstage

/-- A tunnel on a port that the caller has chosen, once the call has returned. -/
theorem tunnels_iff_allocated_explicit : ∃ s,
    tunnelManager.Reached OneAtATime (newTunnelManager 20000 30000) s ∧
      s.memory.tunnels.keys = ["8080"] ∧ (8080 : ℤ) ∈ s.memory.allocator.allocated := by
  obtain ⟨s, hs, hquiet, hkeys⟩ : ∃ s,
      tunnelManager.Reached OneAtATime (newTunnelManager 20000 30000) s ∧
        (∀ f ∈ s.frames, f.waits = true) ∧ s.memory.tunnels.keys = ["8080"] :=
    Reached.of_run (createOn 0 "8080" [.step 0 (0, {}), .step 0 (0, {})])
      (by decide +kernel)
  refine ⟨s, hs, hkeys, (tunnels_iff_allocated 20000 30000 hs hquiet 8080).mp ⟨"8080", ?_, by rfl⟩⟩
  rw [AList.mem_keys, hkeys]
  exact mem_singleton_self _

/-- **A port leaks**: a tunnel that is closed before its port is marked leaves the port allocated
for good. **And a tunnel loses its port**: one on the same number in another spelling is entered
beside it, and closing that one releases the port. -/
theorem port_leaked :
    (∃ s, tunnelManager.Reached anyhow (newTunnelManager 20000 30000) s ∧
      (∀ f ∈ s.frames, f.waits = true) ∧ s.memory.ports = ([], [8080])) ∧
    ∃ s, tunnelManager.Reached anyhow (newTunnelManager 20000 30000) s ∧
      (∀ f ∈ s.frames, f.waits = true) ∧ s.memory.ports = (["8080"], []) := by
  constructor
  · exact Reached.of_run (createOn 0 "8080" [.call (.closeTunnel "8080"), .step 1 (0, {}),
      .step 1 (0, {}), .step 1 (0, {}), .step 0 (0, {}), .step 0 (0, {})]) (by decide +kernel)
  · exact Reached.of_run (createOn 0 "8080" (.step 0 (0, {}) :: .step 0 (0, {}) ::
      createOn 1 "08080" [.step 1 (0, {}), .step 1 (0, {}), .call (.closeTunnel "08080"),
        .step 2 (0, {}), .step 2 (0, {}), .step 2 (0, {})])) (by decide +kernel)

end Containers.Network
