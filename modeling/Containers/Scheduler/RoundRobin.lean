import Containers.Lib.Rotation
import Containers.Remote.HostManager
import Containers.Scheduler.Candidates

/-!
# How fair the rotation is

`round_robin` reads the list of eligible hosts at a counter. The counter is the scheduler's own, but
the list is rebuilt for every call from what the host registry happens to list
(`Remote.DefaultHostManager.listHosts`), and an index is only worth something relative to the list
it is an index into.

`roundRobin_fair` draws the line on both sides. If the registry lists its hosts in the same order
throughout each rotation, `k` rotations choose every host `k` times – up to the point where the
64-bit counter wraps, which shifts the rotation unless the number of hosts divides `2 ^ 64`. If the
order is left open, this is guaranteed for one and for two hosts only: the local host stands first
in every list, and one remote host cannot change places.
-/

namespace Containers.Scheduler

open Go Remote List Platform

/-! ### Runs of calls -/

/-- One call of `Schedule`, with what the registry and the probe showed it. -/
structure ScheduleCall where
  snapshots : Snapshots
  manager : DefaultHostManager
  req : ContainerRequirements

variable {c : ScheduleCall}

/-- **The call is served by the hosts of `m`**: its registry is `m`, walked in some
order, all of it was probed, and the request asks for no label. -/
structure ScheduleCall.Serves (c : ScheduleCall) (m : DefaultHostManager) : Prop where
  reordered : c.manager.Reordered m
  probed : ∀ name ∈ m.hosts, name ∈ c.snapshots
  labelFree : c.req.labels = ∅

section Run

variable (P : Platform) (s : DefaultScheduler) (calls : ℕ → ScheduleCall)

def afterCalls : ℕ → DefaultScheduler
  | 0 => s
  | i + 1 =>
    (schedule P (afterCalls i) (calls i).snapshots (calls i).manager.listHosts (calls i).req).2

/-- The host the call at `i` chooses. -/
def choice (i : ℕ) : String :=
  (schedule P (afterCalls P s calls i) (calls i).snapshots (calls i).manager.listHosts
    (calls i).req).1.hostName

/-- **The first `k` rotations over `names` are fair**: they choose every name `k`
times. -/
def Fair (names : List String) (k : ℕ) : Prop :=
  ∀ name ∈ names,
    ((range (names.length * k)).map (choice P s calls)).count name = k

end Run

variable {P : Platform} {s : DefaultScheduler} {calls : ℕ → ScheduleCall}
  {m : DefaultHostManager} {opts : Options}

/-- The hosts a label-free request may go to: the local one, then the registry's. -/
def eligibleNames (opts : Options) (m : DefaultHostManager) : List String :=
  opts.localHostName :: m.hosts.keys

/-- **The names of a served call** are all of the eligible ones, in the order its
registry was walked. -/
theorem allNames_of_serves (h : c.Serves m) :
    allNames opts (hostsPresentInSnapshots c.snapshots c.manager.listHosts) c.req =
      eligibleNames opts c.manager := by
  have hmatch : ∀ labels : Labels, labelsMatch labels c.req.labels = true := by
    intro labels
    rw [h.labelFree]
    rfl
  have hprobed : ∀ host ∈ c.manager.listHosts, host.name ∈ c.snapshots := by
    intro host hhost
    have hname := mem_map_of_mem (f := (·.name)) hhost
    rw [c.manager.listHosts_name] at hname
    exact h.probed _ (AList.mem_keys.mpr (h.reordered.keys_perm.mem_iff.mp hname))
  have hpresent : hostsPresentInSnapshots c.snapshots c.manager.listHosts = c.manager.listHosts :=
    filter_eq_self.mpr fun host => by simpa using hprobed host
  simp [allNames, hmatch, hpresent, c.manager.listHosts_name, eligibleNames]

theorem eligibleNames_perm (h : c.Serves m) :
    (eligibleNames opts c.manager).Perm (eligibleNames opts m) :=
  h.reordered.keys_perm.cons _

/-! ### The counter -/

theorem schedule_roundRobin (hs : s.opts.strategy = .roundRobin) (h : c.Serves m) :
    (schedule P s c.snapshots c.manager.listHosts c.req).1.hostName =
        turn (eligibleNames s.opts c.manager) "" s.rrCounter.toNat ∧
      (schedule P s c.snapshots c.manager.listHosts c.req).2.rrCounter = s.rrCounter + 1 := by
  simp only [schedule, scheduleOne, DefaultScheduler.place_rrCounter, floorScore_hostName,
    strategyDecision, hs]
  refine ⟨?_, ?_⟩
  · rw [scheduleRoundRobin_hostName, allNames_of_serves h, turn]
  · unfold scheduleRoundRobin
    rw [allNames_of_serves h, eligibleNames]

/-- **The counter counts the calls**, as a 64-bit word; the options stay. -/
theorem afterCalls_rrCounter (hs : s.opts.strategy = .roundRobin) {N : ℕ}
    (hserves : ∀ i < N, (calls i).Serves m) {i : ℕ} (hi : i ≤ N) :
    (afterCalls P s calls i).opts = s.opts ∧
      (afterCalls P s calls i).rrCounter = s.rrCounter + UInt64.ofNat i := by
  induction i with
  | zero => exact ⟨rfl, by simp [afterCalls]⟩
  | succ i ih =>
    obtain ⟨hopts, hcounter⟩ := ih (by omega)
    refine ⟨by rw [afterCalls, schedule_opts, hopts], ?_⟩
    rw [afterCalls, (schedule_roundRobin (hopts ▸ hs) (hserves i (by omega))).2, hcounter,
      UInt64.ofNat_add, UInt64.add_assoc]
    rfl

theorem choice_eq_turn (hs : s.opts.strategy = .roundRobin) {N : ℕ}
    (hserves : ∀ i < N, (calls i).Serves m) {i : ℕ} (hi : i < N) :
    choice P s calls i =
      turn (eligibleNames s.opts (calls i).manager) ""
        ((s.rrCounter.toNat + i) % 2 ^ 64) := by
  obtain ⟨hopts, hcounter⟩ := @afterCalls_rrCounter P s calls m hs N hserves i (by omega)
  rw [choice, (schedule_roundRobin (hopts ▸ hs) (hserves i hi)).1, hopts, hcounter,
    UInt64.toNat_add, UInt64.toNat_ofNat']
  congr 1
  omega

theorem turn_mod {l : List String} {d : String} {c : ℕ} (h : c < 2 ^ 64 ∨ l.length ∣ 2 ^ 64) :
    turn l d (c % 2 ^ 64) = turn l d c := by
  rcases h with hlt | hdvd
  · rw [Nat.mod_eq_of_lt hlt]
  · rw [turn, turn, Nat.mod_mod_of_dvd _ hdvd]

/-! ### Steady orders -/

/-- **Rotations over lists that keep their order are fair.** -/
theorem fair_of_steady (hs : s.opts.strategy = .roundRobin)
    (hnodup : (eligibleNames s.opts m).Nodup) {k : ℕ}
    (hserves : ∀ i < (eligibleNames s.opts m).length * k, (calls i).Serves m)
    (hsteady : ∀ i j, i < (eligibleNames s.opts m).length * k →
      j < (eligibleNames s.opts m).length * k →
      i / (eligibleNames s.opts m).length = j / (eligibleNames s.opts m).length →
      (calls i).manager.hosts.keys = (calls j).manager.hosts.keys)
    (hwrap : s.rrCounter.toNat + (eligibleNames s.opts m).length * k ≤ 2 ^ 64 ∨
      (eligibleNames s.opts m).length ∣ 2 ^ 64) :
    Fair P s calls (eligibleNames s.opts m) k := by
  intro name hname
  have hchoice : ∀ i ∈ range ((eligibleNames s.opts m).length * k), choice P s calls i =
      turn (eligibleNames s.opts (calls i).manager) "" (s.rrCounter.toNat + i) := by
    intro i hi
    rw [mem_range] at hi
    rw [choice_eq_turn hs hserves hi, turn_mod]
    rw [(eligibleNames_perm (hserves i hi)).length_eq]
    exact hwrap.imp (fun h => by omega) id
  rw [map_congr_left hchoice, count_turns "" s.rrCounter.toNat
    (fun i hi => eligibleNames_perm (hserves i hi))
    (fun i j hi hj hij => by rw [eligibleNames, eligibleNames, hsteady i j hi hj hij]),
    count_eq_one_of_mem hnodup hname, Nat.mul_one]

theorem keys_eq_of_reordered {m' : DefaultHostManager} (h : m'.Reordered m)
    (hlen : m.hosts.keys.length ≤ 1) : m'.hosts.keys = m.hosts.keys := by
  have hp := h.keys_perm
  cases hk : m.hosts.keys with
  | nil => rw [hk] at hp; exact hp.eq_nil
  | cons a rest =>
    rw [hk] at hp hlen
    have hnil : rest = [] := length_eq_zero_iff.mp (by simpa using hlen)
    rw [hnil] at hp ⊢
    exact perm_singleton.mp hp

/-! ### Changing orders -/

section Swapped

variable {a b : Σ _ : String, RemoteHost} {rest : List (Σ _ : String, RemoteHost)}

/-- The registry with its first two hosts listed the other way round. -/
def swapped (m : DefaultHostManager) (h : m.hosts.entries = a :: b :: rest) :
    DefaultHostManager where
  hosts := ⟨b :: a :: rest, (perm_nodupKeys (Perm.swap a b rest)).mpr
    (h ▸ m.hosts.nodupKeys)⟩
  name_eq k host hk := by
    have hmem : (⟨k, host⟩ : Σ _ : String, RemoteHost) ∈ b :: a :: rest :=
      GoMap.mem_entries_of_lookup hk
    refine m.name_eq k host (GoMap.lookup_of_mem_entries ?_)
    rw [h]
    exact (Perm.swap a b rest).mem_iff.mp hmem

def probeOf (m : DefaultHostManager) : Snapshots :=
  ⟨m.hosts.entries.map fun e => ⟨e.1, some {}⟩, by
    have hkeys : keys (m.hosts.entries.map fun e =>
        (⟨e.1, some {}⟩ : Σ _ : String, Option HostResources)) = m.hosts.entries.keys := by
      rw [keys, map_map]
      rfl
    rw [NodupKeys, hkeys]
    exact m.hosts.nodupKeys⟩

/-- The third call of a rotation finds the first two remote hosts swapped. -/
def swapAtThird (m : DefaultHostManager) (h : m.hosts.entries = a :: b :: rest) (i : ℕ) :
    ScheduleCall where
  snapshots := probeOf m
  manager := if i = 2 then swapped m h else m
  req := {}

theorem swapAtThird_serves (m : DefaultHostManager) (h : m.hosts.entries = a :: b :: rest) (i : ℕ) :
    (swapAtThird m h i).Serves m where
  reordered := by
    rw [swapAtThird, DefaultHostManager.Reordered]
    split
    · rw [h]
      exact Perm.swap a b rest
    · exact Perm.refl _
  probed name hname := by
    obtain ⟨e, he, rfl⟩ := mem_map.mp (AList.mem_keys.mp hname)
    exact AList.mem_keys.mpr (mem_map.mpr ⟨_, mem_map_of_mem he, rfl⟩)
  labelFree := rfl

/-- **Swapping two hosts between two turns makes one of them come up twice**, and the
rotation unfair. -/
theorem not_fair_of_two_remotes (P : Platform) (hs : opts.strategy = .roundRobin)
    (m : DefaultHostManager) (h : m.hosts.entries = a :: b :: rest) :
    ¬Fair P (newScheduler opts) (swapAtThird m h) (eligibleNames opts m) 1 := by
  intro hfair
  have hkeys : m.hosts.keys = a.1 :: b.1 :: rest.keys := by rw [AList.keys, h]; rfl
  have hserves : ∀ i < 3, (swapAtThird m h i).Serves m := fun i _ => swapAtThird_serves m h i
  have hfirst : choice P (newScheduler opts) (swapAtThird m h) 1 = a.1 := by
    rw [choice_eq_turn (N := 3) hs hserves (by omega)]
    simp [swapAtThird, eligibleNames, hkeys, turn, newScheduler]
  have hsecond : choice P (newScheduler opts) (swapAtThird m h) 2 = a.1 := by
    have hindex : 2 % (rest.keys.length + 1 + 1 + 1) = 2 := Nat.mod_eq_of_lt (by omega)
    rw [choice_eq_turn (N := 3) hs hserves (by omega)]
    simp [swapAtThird, eligibleNames, swapped, turn, newScheduler, hindex]
  have hlen : (eligibleNames opts m).length = 3 + rest.keys.length := by
    simp [eligibleNames, hkeys]
    omega
  have hcount := hfair a.1 (by simp [eligibleNames, hkeys])
  -- the first three calls alone choose `a` twice
  rw [Nat.mul_one, hlen, range_add] at hcount
  simp only [range_succ, range_zero, nil_append, cons_append, map_cons, hfirst, hsecond, count_cons,
    beq_self_eq_true, if_true] at hcount
  omega

end Swapped

/-! ### The rotation -/

/-- **How fair the rotation is**, over a registry `m` and the local host, `n` hosts in
all. Whatever order each call sees them in, every `k` rotations choose each host `k`
times if and only if there are at most two of them. And with any number of hosts it
is so whenever no order changes within a rotation and the 64-bit counter does not
wrap – or wraps unnoticed, the number of hosts dividing `2 ^ 64`. -/
theorem roundRobin_fair (P : Platform) (opts : Options) (hs : opts.strategy = .roundRobin)
    (m : DefaultHostManager) (hlocal : opts.localHostName ∉ m.hosts) :
    let names := eligibleNames opts m
    let n := names.length
    ((∀ (s : DefaultScheduler) (calls : ℕ → ScheduleCall) (k : ℕ), s.opts = opts →
      (∀ i < n * k, (calls i).Serves m) → Fair P s calls names k) ↔ n ≤ 2) ∧
    ∀ (s : DefaultScheduler) (calls : ℕ → ScheduleCall) (k : ℕ), s.opts = opts →
      (∀ i < n * k, (calls i).Serves m) →
      (∀ i j, i < n * k → j < n * k → i / n = j / n →
        (calls i).manager.hosts.keys = (calls j).manager.hosts.keys) →
      (s.rrCounter.toNat + n * k ≤ 2 ^ 64 ∨ n ∣ 2 ^ 64) → Fair P s calls names k := by
  have hnodup : (eligibleNames opts m).Nodup :=
    nodup_cons.mpr ⟨fun h => hlocal (AList.mem_keys.mpr h), m.hosts.nodupKeys⟩
  have hsteady : ∀ (s : DefaultScheduler) (calls : ℕ → ScheduleCall) (k : ℕ), s.opts = opts →
      (∀ i < (eligibleNames opts m).length * k, (calls i).Serves m) →
      (∀ i j, i < (eligibleNames opts m).length * k → j < (eligibleNames opts m).length * k →
        i / (eligibleNames opts m).length = j / (eligibleNames opts m).length →
        (calls i).manager.hosts.keys = (calls j).manager.hosts.keys) →
      (s.rrCounter.toNat + (eligibleNames opts m).length * k ≤ 2 ^ 64 ∨
        (eligibleNames opts m).length ∣ 2 ^ 64) → Fair P s calls (eligibleNames opts m) k := by
    rintro s calls k rfl
    exact fair_of_steady hs hnodup
  refine ⟨⟨fun hall => ?_, fun hle s calls k hopts hserves => ?_⟩, hsteady⟩
  · by_contra hlen
    -- three hosts, so two remote ones to swap
    match h : m.hosts.entries with
    | [] => simp [eligibleNames, AList.keys, h] at hlen
    | [_] => simp [eligibleNames, AList.keys, h] at hlen
    | a :: b :: rest =>
      exact not_fair_of_two_remotes P hs m h
        (hall (newScheduler opts) (swapAtThird m h) 1 rfl fun i _ => swapAtThird_serves m h i)
  · have hlen : m.hosts.keys.length ≤ 1 := by simpa [eligibleNames] using hle
    -- a single remote host has one order, and one or two hosts divide the wrap
    refine hsteady s calls k hopts hserves (fun i j hi hj _ => ?_) (Or.inr ?_)
    · rw [keys_eq_of_reordered (hserves i hi).reordered hlen,
        keys_eq_of_reordered (hserves j hj).reordered hlen]
    · have hcases : (eligibleNames opts m).length = 1 ∨ (eligibleNames opts m).length = 2 := by
        have : (eligibleNames opts m).length = m.hosts.keys.length + 1 := rfl
        omega
      rcases hcases with h | h <;> rw [h] <;> norm_num

def twoRemotes : DefaultHostManager where
  hosts := GoMap.ofList [("a", { name := "a" }), ("b", { name := "b" })]
  name_eq k h hk := by
    rcases mem_cons.mp (GoMap.mem_of_lookup_ofList hk) with heq | hmem
    · rw [(Prod.mk.inj heq).1, (Prod.mk.inj heq).2]
    · rw [(Prod.mk.inj (mem_singleton.mp hmem)).1, (Prod.mk.inj (mem_singleton.mp hmem)).2]

/-- Listed in one order throughout, two remote hosts and the local one are chosen twice
each in six calls. -/
theorem roundRobin_fair_steady :
    Fair Platform.reference (newScheduler { strategy := .roundRobin })
      (fun _ => ⟨probeOf twoRemotes, twoRemotes, {}⟩)
      (eligibleNames { strategy := .roundRobin } twoRemotes) 2 := by
  have hserves : (⟨probeOf twoRemotes, twoRemotes, {}⟩ : ScheduleCall).Serves twoRemotes :=
    swapAtThird_serves twoRemotes rfl 0
  exact (roundRobin_fair reference { strategy := .roundRobin } rfl twoRemotes
    (by decide)).2 _ _ 2 rfl (fun _ _ => hserves) (fun _ _ _ _ _ => rfl) (Or.inl (by decide))

/-- **The rotation is not fair**: three calls over the local host and two remote ones,
of which the third sees the remote ones swapped, choose one of them twice and the other
never. -/
theorem roundRobin_unfair_swapped :
    (∀ i, (swapAtThird twoRemotes rfl i).Serves twoRemotes) ∧
    (range 3).map (choice Platform.reference (newScheduler { strategy := .roundRobin })
      (swapAtThird twoRemotes rfl)) = ["local", "a", "a"] ∧
    ¬Fair Platform.reference (newScheduler { strategy := .roundRobin })
      (swapAtThird twoRemotes rfl) (eligibleNames { strategy := .roundRobin } twoRemotes) 1 :=
  ⟨swapAtThird_serves twoRemotes rfl, by decide +kernel,
    not_fair_of_two_remotes reference rfl twoRemotes rfl⟩

end Containers.Scheduler
