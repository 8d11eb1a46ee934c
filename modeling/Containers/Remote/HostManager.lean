import Containers.Remote.Types

/-!
# The host registry

`DefaultHostManager` of `pkg/remote/host_manager.go`: a map of the registered hosts under their
names. That a host is kept under its own name is a field of the registry, so the operations cannot
lose it.

`ListHosts` walks the map, and one registry lists its hosts in any order from one call to the next:
two registries with the same entries in another order (`Reordered`) are the same registry to Go.

The states a probe records and the probing itself are in `HostStates`: what a scheduler sees of them
are the snapshots it is called with.
-/

namespace Containers.Remote

open Go AList

/-- Why a registration, a removal or a look-up was refused. -/
inductive HostError where
  | emptyName
  | emptyAddress
  | emptyUser
  | alreadyRegistered (name : String)
  | notFound (name : String)
  deriving DecidableEq, Repr

def HostError.message : HostError → String
  | .emptyName => "host name cannot be empty"
  | .emptyAddress => "host address cannot be empty"
  | .emptyUser => "host user cannot be empty"
  | .alreadyRegistered name => "host " ++ quoted name ++ " already registered"
  | .notFound name => "host " ++ quoted name ++ " not found"

/-- **The registry**: the hosts, under their names. -/
structure DefaultHostManager where
  hosts : GoMap String RemoteHost
  name_eq : ∀ k h, hosts.lookup k = some h → h.name = k

variable {m m' : DefaultHostManager}

namespace DefaultHostManager

/-- `NewHostManager`. -/
def newHostManager : DefaultHostManager := ⟨∅, by simp⟩

/-- **`AddHost`**: register a host under a name that is free. -/
def addHost (m : DefaultHostManager) (host : RemoteHost) : Except HostError DefaultHostManager :=
  if host.name = "" then .error .emptyName
  else if host.address = "" then .error .emptyAddress
  else if host.user = "" then .error .emptyUser
  else if host.name ∈ m.hosts then .error (.alreadyRegistered host.name)
  else .ok
    { hosts := m.hosts.insert host.name host
      name_eq := fun k h hk => by
        by_cases hname : k = host.name
        · subst hname
          rw [AList.lookup_insert, Option.some_inj] at hk
          rw [← hk]
        · rw [AList.lookup_insert_ne hname] at hk
          exact m.name_eq k h hk }

/-- **`RemoveHost`**. -/
def removeHost (m : DefaultHostManager) (name : String) : Except HostError DefaultHostManager :=
  if name ∉ m.hosts then .error (.notFound name)
  else .ok
    { hosts := m.hosts.erase name
      name_eq := fun k h hk => by
        by_cases hname : k = name
        · subst hname
          rw [AList.lookup_erase] at hk
          exact absurd hk (by simp)
        · rw [AList.lookup_erase_ne hname] at hk
          exact m.name_eq k h hk }

theorem hosts_of_addHost {host : RemoteHost}
    (h : m.addHost host = .ok m') : m'.hosts = m.hosts.insert host.name host := by
  rw [addHost] at h
  split_ifs at h
  cases h
  rfl

theorem hosts_of_removeHost {name : String}
    (h : m.removeHost name = .ok m') : m'.hosts = m.hosts.erase name := by
  rw [removeHost] at h
  split_ifs at h
  cases h
  rfl

/-- **`GetHost`**. -/
def getHost (m : DefaultHostManager) (name : String) : Except HostError RemoteHost :=
  match m.hosts.lookup name with
  | none => .error (.notFound name)
  | some host => .ok host

/-- **`ListHosts`**, in the order the map is walked. -/
def listHosts (m : DefaultHostManager) : List RemoteHost := m.hosts.entries.map (·.2)

def Reordered (m m' : DefaultHostManager) : Prop := m.hosts.entries.Perm m'.hosts.entries

/-- **The names a registry lists are its keys**, each once. -/
theorem listHosts_name (m : DefaultHostManager) : m.listHosts.map (·.name) = m.hosts.keys := by
  rw [listHosts, List.map_map]
  exact List.map_congr_left fun e he => m.name_eq e.1 e.2 (GoMap.lookup_of_mem_entries he)

theorem Reordered.keys_perm (h : m.Reordered m') :
    m.hosts.keys.Perm m'.hosts.keys := h.map _

end DefaultHostManager

end Containers.Remote
