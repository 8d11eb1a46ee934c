import Containers.EnvConfig.Parser
import Containers.Network.PortAllocator

/-!
# What an accepted configuration is good for

A configuration that `Parse` accepts goes on to two other components: its hosts are registered with
a host manager, one by one, and its port range is handed to an allocator.

* The host manager refuses a host without a user and a name that it has already. Neither is looked
  at by `validateEnv`, so the hosts can be registered exactly if each of them has a user, its own or
  the default one, and no name comes twice (`accepted_hosts_register_iff`).
* The allocator reads its range as half open. So it gives out every port of the configured range but
  the last (`accepted_range_allocates`), and none at all of a range of one port.
-/

namespace Containers.EnvConfig

open Go Remote DefaultHostManager List AList

variable {m : DefaultHostManager} {start stop : ℤ}

/-! ### The hosts -/

/-- The hosts are added to an empty registry, one after the other, as long as none is refused. -/
def registerAll (hosts : List Endpoint) : Except HostError DefaultHostManager :=
  hosts.foldlM (fun m host => m.addHost host.toRemoteHost) newHostManager

/-- **When `AddHost` succeeds.** -/
theorem exists_addHost_iff {host : RemoteHost} :
    (∃ m', m.addHost host = .ok m') ↔
      host.name ≠ "" ∧ host.address ≠ "" ∧ host.user ≠ "" ∧ host.name ∉ m.hosts := by
  constructor
  · rintro ⟨m', h⟩
    rw [addHost] at h
    split_ifs at h with hname haddress huser hmem
    exact ⟨hname, haddress, huser, hmem⟩
  · rintro ⟨hname, haddress, huser, hmem⟩
    exact ⟨_, by rw [addHost, if_neg hname, if_neg haddress, if_neg huser, if_neg hmem]⟩

/-- **When hosts can all be added**, one after the other. -/
theorem exists_foldlM_addHost_iff {hosts : List Endpoint} :
    (∃ m', hosts.foldlM (fun m host => m.addHost host.toRemoteHost) m = .ok m') ↔
      (∀ host ∈ hosts, host.name ≠ "" ∧ host.address ≠ "" ∧ host.user ≠ "" ∧ host.name ∉ m.hosts) ∧
        (hosts.map fun host => host.name).Nodup := by
  induction hosts generalizing m with
  | nil => exact iff_of_true ⟨m, rfl⟩ ⟨by simp, nodup_nil⟩
  | cons host hosts ih =>
    rw [foldlM_cons, forall_mem_cons, map_cons, nodup_cons]
    rcases hfirst : m.addHost host.toRemoteHost with err | m₁
    · -- the first host is refused
      refine iff_of_false ?_ ?_
      · rintro ⟨m', h⟩
        cases h
      · rintro ⟨⟨hhost, -⟩, -⟩
        obtain ⟨m', hm'⟩ := exists_addHost_iff.mpr hhost
        rw [hfirst] at hm'
        cases hm'
    · have hhost := exists_addHost_iff.mp ⟨m₁, hfirst⟩
      have hkeys : ∀ name, name ∈ m₁.hosts ↔ name = host.name ∨ name ∈ m.hosts := fun name => by
        rw [hosts_of_addHost hfirst, mem_insert]
      refine (ih (m := m₁)).trans ?_
      simp only [hkeys, not_or]
      constructor
      · rintro ⟨hall, hnodup⟩
        refine ⟨⟨hhost, fun x hx => ?_⟩, fun hmem => ?_, hnodup⟩
        · obtain ⟨h₁, h₂, h₃, -, h₄⟩ := hall x hx
          exact ⟨h₁, h₂, h₃, h₄⟩
        · obtain ⟨x, hx, hname⟩ := mem_map.mp hmem
          exact (hall x hx).2.2.2.1 hname
      · rintro ⟨⟨-, hall⟩, hnot, hnodup⟩
        refine ⟨fun x hx => ?_, hnodup⟩
        obtain ⟨h₁, h₂, h₃, h₄⟩ := hall x hx
        exact ⟨h₁, h₂, h₃, fun hname => hnot (mem_map.mpr ⟨x, hx, hname⟩), h₄⟩

/-- **The hosts of an accepted configuration can all be registered** exactly if each has a user, its
own or the default one, and no two have one name. -/
theorem accepted_hosts_register_iff (L : Casing) (env : Env) (cfg : DistributionConfig)
    (h : parse L env = .ok cfg) :
    (∃ m, registerAll cfg.toRemoteHosts = .ok m) ↔
      (∀ host ∈ cfg.hosts, host.user ≠ "" ∨ cfg.defaultUser ≠ "") ∧
        (cfg.hosts.map fun host => host.name).Nodup := by
  have hnames :
      (cfg.toRemoteHosts.map fun host => host.name) = cfg.hosts.map fun host => host.name := by
    rw [DistributionConfig.toRemoteHosts, map_map]
    rfl
  have huser : ∀ host : RemoteEndpointConfig,
      orDefault host.user cfg.defaultUser ≠ "" ↔ host.user ≠ "" ∨ cfg.defaultUser ≠ "" := by
    intro host
    by_cases hempty : host.user = ""
    · simp [orDefault, hempty]
    · simp [orDefault, hempty]
  refine exists_foldlM_addHost_iff.trans ?_
  rw [hnames]
  refine and_congr_left' ?_
  constructor
  · intro hall host hmem
    exact (huser host).mp (hall _ (mem_map.mpr ⟨host, hmem, rfl⟩)).2.2.1
  · intro hall host hmem
    obtain ⟨entry, hentry, rfl⟩ := mem_map.mp hmem
    obtain ⟨hname, haddress⟩ := host_of_parse h hentry
    exact ⟨hname, haddress, (huser entry).mpr (hall entry hentry), notMem_empty _⟩

def envOf (vars : List (String × String)) : Env := fun key => (vars.lookup key).getD ""

def twoHosts : Env := envOf
  [("CONTAINERS_REMOTE_DEFAULT_SSH_USER", "ops"),
    ("CONTAINERS_REMOTE_HOST_1_NAME", "a"), ("CONTAINERS_REMOTE_HOST_1_ADDRESS", "10.0.0.1"),
    ("CONTAINERS_REMOTE_HOST_2_NAME", "b"), ("CONTAINERS_REMOTE_HOST_2_ADDRESS", "10.0.0.2"),
    ("CONTAINERS_REMOTE_HOST_2_USER", "root")]

theorem accepted_hosts_register_two :
    ∃ cfg m, parse .ascii twoHosts = .ok cfg ∧ cfg.hosts.length = 2 ∧
      registerAll cfg.toRemoteHosts = .ok m := by
  have hparse := parse_eq_ok.mpr ⟨rfl, (by decide +kernel :
    complaints .ascii twoHosts (buildFromEnv .ascii twoHosts) = [])⟩
  obtain ⟨m, hm⟩ := (accepted_hosts_register_iff .ascii twoHosts _ hparse).mpr
    ⟨by decide +kernel, by decide +kernel⟩
  exact ⟨_, m, hparse, by decide +kernel, hm⟩

/-- **A host without a user is accepted and then refused**, and so is the second of two hosts with
one name. -/
theorem accepted_host_refused :
    (∃ cfg, parse .ascii (envOf
        [("CONTAINERS_REMOTE_HOST_1_NAME", "a"),
        ("CONTAINERS_REMOTE_HOST_1_ADDRESS", "10.0.0.1")]) =
          .ok cfg ∧
      ∃ err, registerAll cfg.toRemoteHosts = .error err ∧
      err.message = "host user cannot be empty") ∧ ∃ cfg, parse .ascii (envOf
        [("CONTAINERS_REMOTE_DEFAULT_SSH_USER", "ops"),
          ("CONTAINERS_REMOTE_HOST_1_NAME", "a"), ("CONTAINERS_REMOTE_HOST_1_ADDRESS", "10.0.0.1"),
          ("CONTAINERS_REMOTE_HOST_2_NAME", "a"),
          ("CONTAINERS_REMOTE_HOST_2_ADDRESS", "10.0.0.2")]) =
          .ok cfg ∧
      registerAll cfg.toRemoteHosts = .error (.alreadyRegistered "a") := by
  refine ⟨⟨_, parse_eq_ok.mpr ⟨rfl, by decide +kernel⟩, .emptyUser, ?_, rfl⟩,
    ⟨_, parse_eq_ok.mpr ⟨rfl, by decide +kernel⟩, ?_⟩⟩
  · rfl
  · rfl

/-! ### The port range -/

open Network PortAllocator

theorem countable_of_ports (hstart : 1 ≤ start) (hle : start ≤ stop)
    (hstop : stop ≤ 65536) : Countable start stop where
  start_ge := by omega
  stop_lt := by omega
  ge := by omega
  le := by omega

/-- **A fresh allocator that faces available ports only** succeeds as often as its half-open range
has ports. -/
theorem exists_allocateAll_new_iff (hstart : 1 ≤ start) (hle : start ≤ stop)
    (hstop : stop ≤ 65536) (description : String) (k : ℕ) :
    (∃ r, allocateAll (fun _ => true) description k (newPortAllocator start stop) = .ok r) ↔
      (k : ℤ) ≤ stop - start := by
  have hrange := countable_of_ports hstart hle hstop
  refine (exists_allocateAll_iff hrange ranged_new fun port hport => ?_).trans ?_
  · exact absurd hport (notMem_empty _)
  · have hempty : (newPortAllocator start stop).allocated.keys.length = 0 := rfl
    omega

/-- **An accepted port range is usable but for its last port**: an allocator that is built from it
succeeds `end - start` times in a row and no more. One that is built with the end of the range moved
up by one gives out all ports, the last one too. -/
theorem accepted_range_allocates (L : Casing) (env : Env) (cfg : DistributionConfig)
    (h : parse L env = .ok cfg) (description : String) :
    (∀ k : ℕ, (∃ r, allocateAll (fun _ => true) description k
        (newPortAllocator cfg.portRangeStart cfg.portRangeEnd) = .ok r) ↔
      (k : ℤ) ≤ cfg.portRangeEnd - cfg.portRangeStart) ∧
    ∃ r, allocateAll (fun _ => true) description
        (cfg.portRangeEnd - cfg.portRangeStart + 1).toNat
        (newPortAllocator cfg.portRangeStart (cfg.portRangeEnd + 1)) = .ok r ∧
      r.1.Nodup ∧ ∀ port, port ∈ r.1 ↔ cfg.portRangeStart ≤ port ∧ port ≤ cfg.portRangeEnd := by
  obtain ⟨hstart, hle, hstop⟩ := portRange_of_parse h
  refine ⟨exists_allocateAll_new_iff hstart hle (by omega) description, ?_⟩
  have hle' : cfg.portRangeStart ≤ cfg.portRangeEnd + 1 := by omega
  obtain ⟨r, hr⟩ := (exists_allocateAll_new_iff hstart hle' (by omega) description
    (cfg.portRangeEnd - cfg.portRangeStart + 1).toNat).mpr (by omega)
  obtain ⟨hlength, hnodup, hmem⟩ :=
    of_allocateAll (countable_of_ports hstart (by omega) (by omega)) ranged_new hr
  -- as many ports as the range has, all different and all in it
  have hperm : r.1.Perm (ports cfg.portRangeStart (cfg.portRangeEnd + 1)) := by
    refine (hnodup.subperm fun port hport => mem_ports.mpr (hmem port hport).1).perm_of_length_le ?_
    rw [length_ports]
    omega
  refine ⟨r, hr, hnodup, fun port => ?_⟩
  rw [hperm.mem_iff, mem_ports]
  omega

/-- A range of three ports: two of them, and all three with the end moved up. -/
def threePorts : Env := envOf
  [("CONTAINERS_REMOTE_PORT_RANGE_START", "25000"), ("CONTAINERS_REMOTE_PORT_RANGE_END", "25002")]

theorem accepted_range_allocates_three :
    ∃ cfg, parse .ascii threePorts = .ok cfg ∧ cfg.portRangeStart = 25000 ∧
    cfg.portRangeEnd = 25002 ∧ (∃ r, allocateAll (fun _ => true) "web" 2
        (newPortAllocator cfg.portRangeStart cfg.portRangeEnd) = .ok r) ∧
      ∃ r, allocateAll (fun _ => true) "web" 3
        (newPortAllocator cfg.portRangeStart (cfg.portRangeEnd + 1)) = .ok r ∧ 25002 ∈ r.1 := by
  have hparse := parse_eq_ok.mpr ⟨rfl, (by decide +kernel :
    complaints .ascii threePorts (buildFromEnv .ascii threePorts) = [])⟩
  have hstart : (buildFromEnv .ascii threePorts).portRangeStart = 25000 := by decide +kernel
  have hend : (buildFromEnv .ascii threePorts).portRangeEnd = 25002 := by decide +kernel
  obtain ⟨hhalf, r, hr, -, hmem⟩ := accepted_range_allocates .ascii threePorts _ hparse "web"
  rw [hstart, hend] at hhalf hr hmem
  exact ⟨_, hparse, hstart, hend, by rw [hstart, hend]; exact (hhalf 2).mpr (by norm_num),
    r, by rw [hstart, hend]; exact hr, (hmem 25002).mpr (by norm_num)⟩

/-- **A range of one port is accepted and has no port to give**; of a range of two ports, the first
is given out and the second is not. -/
theorem accepted_range_exhausted :
    (∃ cfg, parse .ascii (envOf [("CONTAINERS_REMOTE_PORT_RANGE_START", "25000"),
        ("CONTAINERS_REMOTE_PORT_RANGE_END", "25000")]) = .ok cfg ∧
      allocateAll (fun _ => true) "web" 1
        (newPortAllocator cfg.portRangeStart cfg.portRangeEnd) =
          .error "no available ports in range 25000-25000") ∧
    ∃ cfg, parse .ascii (envOf [("CONTAINERS_REMOTE_PORT_RANGE_START", "25000"),
        ("CONTAINERS_REMOTE_PORT_RANGE_END", "25001")]) = .ok cfg ∧
      (allocateAll (fun _ => true) "web" 1
        (newPortAllocator cfg.portRangeStart cfg.portRangeEnd)).map (·.1) = .ok [25000] ∧
      allocateAll (fun _ => true) "web" 2
        (newPortAllocator cfg.portRangeStart cfg.portRangeEnd) =
          .error "no available ports in range 25000-25001" :=
  ⟨⟨_, parse_eq_ok.mpr ⟨rfl, by decide +kernel⟩, rfl⟩,
    ⟨_, parse_eq_ok.mpr ⟨rfl, by decide +kernel⟩, rfl, rfl⟩⟩

end Containers.EnvConfig
