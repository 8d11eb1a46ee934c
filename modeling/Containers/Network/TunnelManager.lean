import Containers.Network.PortAllocator
import Containers.Network.Types
import Containers.Remote.Types

/-!
# The tunnel manager

`DefaultTunnelManager` of `pkg/network`, for callers that make one call at a time: tunnels are
kept by their local port, and a tunnel that names none is given the next free port of a range. A
local port that carries a tunnel is never given to a second one, so a tunnel stays until it is
closed.

What the machine answers is a parameter: which ports can be listened on, and the error with
which an ssh process fails to start. A process that has started keeps running, so tunnels are
not reaped; whether the local bind was confirmed only sets the state of a tunnel, which no
caller here reads.
-/

namespace Containers.Network

open Go Remote

/-! ### Tunnels -/

/-- The tunnels of a manager, by local port, and its allocator. -/
structure DefaultTunnelManager where
  tunnels : GoMap String TunnelInfo := ∅
  allocator : PortAllocator

/-- What a manager asks of the world: the host registry, the ports that can be listened on,
and the error with which the ssh process of a tunnel fails to start. -/
structure Machine where
  getHost : String → Except String (Option RemoteHost)
  available : ℤ → Bool
  start : RemoteHost → TunnelSpec → Option String

/-- `tunnelDestination`. -/
def tunnelDestination (host : RemoteHost) : String := host.user ++ "@" ++ host.address

namespace DefaultTunnelManager

variable (w : Machine) (m : DefaultTunnelManager)

def releaseAuto (port : Option ℤ) : DefaultTunnelManager :=
  match port with
  | some port => { m with allocator := m.allocator.release port }
  | none => m

/-- The last part of `CreateTunnel`, with the local port decided: start the process, and keep
the tunnel unless its local port has one already. -/
def establish (hostName : String) (host : RemoteHost) (spec : TunnelSpec) (auto : Option ℤ) :
    Except String (Option TunnelInfo) × DefaultTunnelManager :=
  match w.start host spec with
  | some err => (.error ("start tunnel to " ++ hostName ++ ": " ++ err), m.releaseAuto auto)
  | none =>
    if spec.localPort ∈ m.tunnels then
      (.error ("tunnel already active on local port " ++ spec.localPort), m.releaseAuto auto)
    else
      let info : TunnelInfo := ⟨spec, hostName⟩
      let m : DefaultTunnelManager := { m with tunnels := m.tunnels.insert spec.localPort info }
      match auto, atoi spec.localPort.toList with
      -- an explicit port is entered into the books of the allocator
      | none, some port =>
        (.ok (some info), { m with allocator := m.allocator.markAllocated port spec.description })
      | _, _ => (.ok (some info), m)

/-- **`CreateTunnel`**. -/
def createTunnel (hostName : String) (spec : TunnelSpec) :
    Except String (Option TunnelInfo) × DefaultTunnelManager :=
  match w.getHost hostName with
  | .error err => (.error ("get host " ++ hostName ++ ": " ++ err), m)
  | .ok none => (.error ("host " ++ hostName ++ " not found"), m)
  | .ok (some host) =>
    if (tunnelDestination host).toList.head? = some '-' then
      (.error ("refusing ssh tunnel destination \"" ++ tunnelDestination host ++
        "\" that begins with '-' (would be parsed as an ssh option — argument injection)"), m)
    else if spec.localPort = "" then
      match m.allocator.allocate w.available spec.description with
      | (.error err, _) => (.error ("allocate port: " ++ err), m)
      | (.ok port, allocator) =>
        establish w { m with allocator := allocator } hostName host
          { spec with localPort := toString port } (some port)
    else establish w m hostName host spec none

/-- `CloseTunnel`. -/
def closeTunnel (localPort : String) : Option String × DefaultTunnelManager :=
  if localPort ∈ m.tunnels then
    (none, { m with
      tunnels := m.tunnels.erase localPort
      -- the error of reading the port as a number is ignored
      allocator := m.allocator.release (atoiValue localPort.toList) })
  else (some ("no tunnel on port " ++ localPort), m)

/-- `CloseAll`: every tunnel in turn; one that is gone already is no failure. -/
def closeAll : Option String × DefaultTunnelManager :=
  (none, m.tunnels.keys.foldl (fun m localPort => (closeTunnel m localPort).2) m)

/-! ### What a new tunnel does to the others -/

variable {w m} {hostName : String} {spec : TunnelSpec} {info : Option TunnelInfo}

theorem establish_eq_ok {host : RemoteHost} {auto : Option ℤ}
    (h : (establish w m hostName host spec auto).1 = .ok info) :
    spec.localPort ∉ m.tunnels ∧ (establish w m hostName host spec auto).2.tunnels
      = m.tunnels.insert spec.localPort ⟨spec, hostName⟩ := by
  unfold establish at h ⊢
  cases hstart : w.start host spec with
  | some err =>
    rw [hstart] at h
    exact absurd h (by simp)
  | none =>
    rw [hstart] at h
    by_cases hmem : spec.localPort ∈ m.tunnels
    · rw [if_pos hmem] at h
      exact absurd h (by simp)
    · rw [if_neg hmem]
      refine ⟨hmem, ?_⟩
      cases auto <;> cases atoi spec.localPort.toList <;> rfl

/-- **A tunnel takes nobody's place**: one that is created is one more. -/
theorem length_tunnels_createTunnel (h : (createTunnel w m hostName spec).1 = .ok info) :
    (createTunnel w m hostName spec).2.tunnels.keys.length = m.tunnels.keys.length + 1 := by
  have hadd : ∀ {m' : DefaultTunnelManager} {host spec auto}, m'.tunnels = m.tunnels →
      (establish w m' hostName host spec auto).1 = .ok info →
      (establish w m' hostName host spec auto).2.tunnels.keys.length
        = m.tunnels.keys.length + 1 := by
    intro m' host spec auto hm' h
    obtain ⟨hfree, heq⟩ := establish_eq_ok h
    rw [heq, AList.keys_insert, List.length_cons, ← hm',
      List.erase_of_not_mem (by rwa [← AList.mem_keys])]
  unfold createTunnel at h ⊢
  cases hhost : w.getHost hostName with
  | error err =>
    rw [hhost] at h
    exact absurd h (by simp)
  | ok found =>
    rw [hhost] at h
    cases found with
    | none => exact absurd h (by simp)
    | some host =>
      dsimp only at h ⊢
      split_ifs at h ⊢ with hdash hauto
      · cases hport : m.allocator.allocate w.available spec.description with
        | mk result allocator =>
          rw [hport] at h
          cases result with
          | error err => exact absurd h (by simp)
          | ok port => exact hadd rfl h
      · exact hadd rfl h

end DefaultTunnelManager

end Containers.Network
