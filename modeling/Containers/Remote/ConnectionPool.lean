import Containers.Lib.Sections
import Containers.Remote.ControlSocket

/-!
# The connection pool

`ConnectionPool` of `pkg/remote/connection_pool.go`, section by section: `Acquire` looks for an
entry under the pool's mutex, takes the dial lock of the host, looks again, dials with the mutex
released, and enters the new master; `Release` counts down; `CloseHost` and `Close` ask the masters
to exit and drop their entries, in one section.

The masters are numbered as they are started, and those that were asked to exit are written down; no
operation reads either. What comes from outside: whether a socket is still there, what comes of a
dial, and the error of asking a master to exit. The argument vectors of ssh and the times of the
entries are left out.

`Close` does not leave a mark, so an `Acquire` that was dialling enters its master afterwards
(`acquire_after_close`); and an entry whose socket is not found is dropped without asking its
master. Without these, closing the pool is final (`closed_of_close`).
-/

namespace Containers.Remote

open Go ThreadSystem Sections List

namespace ConnectionPool

/-! ### The sections -/

/-- An entry of the pool, with the number of its master. -/
structure ControlEntry where
  host : RemoteHost
  socketPath : String
  refs : ℤ
  master : ℕ

variable {entry : ControlEntry} {key : String}

/-- **What the calls share**: the entries by key and the dial locks that are held. With them, the
number of masters that were started, those that were asked to exit, and whether a `Close` has
taken the entries. -/
structure Memory where
  active : GoMap String ControlEntry := ∅
  dialing : List String := []
  masters : ℕ := 0
  asked : List ℕ := []
  closed : Bool := false

/-- Where an `Acquire` is. -/
inductive AcquirePoint where
  | enter
  /-- Before it takes the dial lock of the host. -/
  | lock
  | recheck
  | dial
  /-- The master with this number is up, and not yet entered. -/
  | insert (master : ℕ)
  /-- Before it gives the dial lock back, with what it returns. -/
  | unlock (socket : String) (err : Option String)
  deriving DecidableEq

/-- A call in flight. -/
inductive Frame where
  /-- An `Acquire`, and whether the pool had been closed when it was called. -/
  | acquire (host : RemoteHost) (late : Bool) (p : AcquirePoint)
  | release (host : RemoteHost)
  | closeHost (host : RemoteHost)
  | close
  /-- The call returns this path and this error. -/
  | ret (socket : String) (err : Option String)
  deriving DecidableEq

/-- What comes from outside: whether the socket of an entry exists, the error and the output with
which a dial fails, and the error of the command that asks the master of a host to exit. -/
structure Answer where
  stat : Bool := true
  dial : Option (String × String) := none
  exit : RemoteHost → Option String := fun _ => none

variable (socketDir : String) (m : Memory) (o : Answer)

/-- The look for an entry: one more holds it; or its socket is gone, and it is dropped. -/
def reuse (key : String) : Memory × Option String :=
  match m.active.lookup key with
  | none => (m, none)
  | some entry =>
    if o.stat then
      ({ m with active := m.active.insert key { entry with refs := entry.refs + 1 } },
        some entry.socketPath)
    else ({ m with active := m.active.erase key }, none)

/-- `closeEntry`: the error, and the master if it was asked. -/
def closeEntry (entry : ControlEntry) : Option String × Option ℕ :=
  match sshDestination entry.host with
  | .error err => (some err, none)
  | .ok _ => (o.exit entry.host, some entry.master)

/-- `Acquire`. -/
def acquireStep (host : RemoteHost) (late : Bool) : AcquirePoint → Option (Memory × List Frame)
  | .enter =>
    let found := reuse m o (hostKey host)
    some (found.1, [found.2.elim (.acquire host late .lock) fun socket => .ret socket none])
  | .lock =>
    if hostKey host ∈ m.dialing then none
    else some ({ m with dialing := hostKey host :: m.dialing }, [.acquire host late .recheck])
  | .recheck =>
    let found := reuse m o (hostKey host)
    some (found.1, [.acquire host late (found.2.elim .dial fun socket => .unlock socket none)])
  | .dial =>
    match sshDestination host, o.dial with
    | .error err, _ => some (m, [.acquire host late (.unlock "" (some err))])
    | .ok _, some (err, stderr) =>
      some (m, [.acquire host late (.unlock "" (some ("start ControlMaster for " ++
        hostKey host ++ ": " ++ err ++ " (stderr: " ++ stderr ++ ")")))])
    | .ok _, none =>
      some ({ m with masters := m.masters + 1 }, [.acquire host late (.insert m.masters)])
  | .insert master =>
    let socketPath := controlSocketPath socketDir host
    some ({ m with active := m.active.insert (hostKey host) ⟨host, socketPath, 1, master⟩ },
      [.acquire host late (.unlock socketPath none)])
  | .unlock socket err =>
    some ({ m with dialing := m.dialing.erase (hostKey host) }, [.ret socket err])

/-- `Release`. -/
def releaseStep (host : RemoteHost) : Memory :=
  match m.active.lookup (hostKey host) with
  | none => m
  | some entry =>
    if 0 < entry.refs then
      { m with active := m.active.insert (hostKey host) { entry with refs := entry.refs - 1 } }
    else m

/-- `CloseHost`. -/
def closeHostStep (host : RemoteHost) : Memory × Option String :=
  match m.active.lookup (hostKey host) with
  | none => (m, none)
  | some entry =>
    ({ m with
        active := m.active.erase (hostKey host)
        asked := (closeEntry o entry).2.toList ++ m.asked }, (closeEntry o entry).1)

/-- `Close`: every entry in turn; the first error is returned. -/
def closeStep : Memory × Option String :=
  let closing := (m.active.entries.map (·.2)).map (closeEntry o)
  ({ m with active := ∅, asked := closing.filterMap (·.2) ++ m.asked, closed := true },
    (closing.filterMap (·.1)).head?)

def step : Frame → Option (Memory × List Frame)
  | .acquire host late p => acquireStep socketDir m o host late p
  | .release host => some (releaseStep m host, [.ret "" none])
  | .closeHost host => some ((closeHostStep m o host).1, [.ret "" (closeHostStep m o host).2])
  | .close => some ((closeStep m o).1, [.ret "" (closeStep m o).2])
  | .ret _ _ => some (m, [])

/-- What is called. -/
inductive Call where
  | acquire (host : RemoteHost)
  | release (host : RemoteHost)
  | closeHost (host : RemoteHost)
  | close

def Call.frame (m : Memory) : Call → Frame
  | .acquire host => .acquire host m.closed .enter
  | .release host => .release host
  | .closeHost host => .closeHost host
  | .close => .close

/-- **The pool, section by section.** -/
def pool : Sections Memory Frame Answer Call where
  call m c := c.frame m
  step m o f := step socketDir m o f

/-! ### The dial locks -/

variable {socketDir m o} {m' : Memory} {host : RemoteHost} {A B F made : List Frame} {f : Frame}

def Frame.locks : Frame → Option String
  | .acquire _ _ .enter | .acquire _ _ .lock => none
  | .acquire host _ _ => some (hostKey host)
  | _ => none

/-- **A dial lock is held by one call.** -/
structure Locked (m : Memory) (F : List Frame) : Prop where
  nodup : (F.filterMap Frame.locks).Nodup
  dialing : ∀ key ∈ F.filterMap Frame.locks, key ∈ m.dialing

theorem Locked.of_same (h : Locked m (A ++ f :: B)) (hdialing : m'.dialing = m.dialing)
    (hlocks : made.filterMap Frame.locks = f.locks.toList) : Locked m' (A ++ (made ++ B)) := by
  have hperm := held_same_perm A B hlocks
  refine ⟨hperm.nodup_iff.mpr h.nodup, fun key hkey => ?_⟩
  rw [hdialing]
  exact h.dialing key (hperm.mem_iff.mp hkey)

theorem reuse_eq (key : String) :
    (reuse m o key).1 = { m with active := (reuse m o key).1.active } := by
  rw [reuse]
  split
  · rfl
  · split_ifs <;> rfl

theorem releaseStep_eq : releaseStep m host = { m with active := (releaseStep m host).active } := by
  rw [releaseStep]
  split
  · rfl
  · split_ifs <;> rfl

/-- **Every section keeps the locks apart.** -/
theorem locked_step (h : Locked m (A ++ f :: B)) (hstep : step socketDir m o f = some (m', made)) :
    Locked m' (A ++ (made ++ B)) := by
  cases f with
  | acquire host late p =>
    cases p with
    | enter =>
      cases hstep
      refine h.of_same (by rw [reuse_eq]) ?_
      rcases (reuse m o (hostKey host)).2 <;> rfl
    | lock =>
      rw [step, acquireStep] at hstep
      split_ifs at hstep with hheld
      cases hstep
      have hbefore := held_perm A B (.acquire host late .lock) Frame.locks
      have hafter := held_made_perm A B [.acquire host late .recheck] Frame.locks
      have hkeys : ∀ key ∈ (A ++ B).filterMap Frame.locks, key ∈ m.dialing := fun key hkey =>
        h.dialing key (hbefore.mem_iff.mpr (mem_append_right _ hkey))
      refine ⟨nodup_held_new A B h.nodup rfl fun hkey => hheld (hkeys _ hkey), ?_⟩
      intro key hkey
      rcases mem_cons.mp (hafter.mem_iff.mp hkey) with rfl | hkey
      · exact mem_cons_self
      · exact mem_cons_of_mem _ (hkeys key hkey)
    | recheck =>
      cases hstep
      refine h.of_same (by rw [reuse_eq]) ?_
      rcases (reuse m o (hostKey host)).2 <;> rfl
    | dial =>
      rw [step, acquireStep] at hstep
      split at hstep <;> cases hstep <;> exact h.of_same rfl rfl
    | insert master =>
      cases hstep
      exact h.of_same rfl rfl
    | unlock socket err =>
      cases hstep
      have hbefore := held_perm A B (.acquire host late (.unlock socket err)) Frame.locks
      have hafter := held_made_perm A B [.ret socket err] Frame.locks
      refine ⟨nodup_of_subperm (held_subperm A B nil_subperm) h.nodup,
        fun key hkey => ?_⟩
      have hkey : key ∈ (A ++ B).filterMap Frame.locks := hafter.mem_iff.mp hkey
      have hne : key ≠ hostKey host := by
        rintro rfl
        exact not_mem_held A B h.nodup rfl hkey
      refine (mem_erase_of_ne hne).mpr ?_
      exact h.dialing key (hbefore.mem_iff.mpr (mem_cons_of_mem _ hkey))
  | release host =>
    cases hstep
    exact h.of_same (by rw [releaseStep_eq]) rfl
  | closeHost host =>
    cases hstep
    refine h.of_same ?_ rfl
    rw [closeHostStep]
    split <;> rfl
  | close | ret =>
    cases hstep
    exact h.of_same rfl rfl

/-! ### Masters are not lost -/

def Memory.owner (m : Memory) (key : String) : Option (RemoteHost × ℕ) :=
  (m.active.lookup key).map fun entry => (entry.host, entry.master)

theorem owner_insert {active : GoMap String ControlEntry} (key key' : String)
    (hactive : m'.active = active.insert key entry) :
    m'.owner key' = if key' = key then some (entry.host, entry.master)
      else (active.lookup key').map fun entry => (entry.host, entry.master) := by
  rw [Memory.owner, hactive]
  split_ifs with hkey
  · rw [hkey, AList.lookup_insert]
    rfl
  · rw [AList.lookup_insert_ne hkey]

theorem owner_refs {refs : ℤ}
    (hentry : m.active.lookup key = some entry)
    (hactive : m'.active = m.active.insert key { entry with refs := refs }) :
    m'.owner = m.owner := by
  funext key'
  rw [owner_insert key key' hactive]
  split_ifs with hkey
  · rw [hkey, Memory.owner, hentry]
    rfl
  · rfl

theorem owner_release : (releaseStep m host).owner = m.owner := by
  rw [releaseStep]
  split
  · rfl
  · rename_i entry hentry
    split_ifs
    · exact owner_refs hentry rfl
    · rfl

/-- **The look for an entry**, when its socket is there: the entries stay, and one is found unless
there is none. -/
theorem owner_reuse (hstat : key ∈ m.active → o.stat = true) :
    (reuse m o key).1.owner = m.owner ∧ ((reuse m o key).2 = none → m.owner key = none) := by
  rw [reuse]
  split
  · rename_i hnone
    exact ⟨rfl, fun _ => by rw [Memory.owner, hnone]; rfl⟩
  · rename_i entry hentry
    rw [if_pos (hstat (AList.lookup_isSome.mp (by rw [hentry]; rfl)))]
    exact ⟨owner_refs hentry rfl, fun h => by cases h⟩

/-- A call that dials or has dialled: what it is to enter is not there yet. -/
def Frame.dials : Frame → Option RemoteHost
  | .acquire host _ .dial | .acquire host _ (.insert _) => some host
  | _ => none

theorem locks_of_dials (h : f.dials = some host) : f.locks = some (hostKey host) := by
  rcases f with ⟨_, _, _ | _ | _ | _ | _ | _⟩ | _ | _ | _ | _ <;> cases h <;> rfl

def Frame.master : Frame → Option (RemoteHost × ℕ)
  | .acquire host _ (.insert master) => some (host, master)
  | _ => none

def Reachable (host : RemoteHost) : Prop := ∃ dest, sshDestination host = .ok dest

/-- **The books of the pool**: nobody enters a master where there is one, and a master that was
started is entered, is to be, or was asked to exit. -/
structure Booked (m : Memory) (F : List Frame) : Prop where
  absent : ∀ f ∈ F, ∀ host, f.dials = some host → m.owner (hostKey host) = none
  reachable : ∀ key host master, m.owner key = some (host, master) → Reachable host
  inserts : ∀ host master, (host, master) ∈ F.filterMap Frame.master → Reachable host
  masters : ∀ master < m.masters, (∃ key host, m.owner key = some (host, master)) ∨
    (∃ host, (host, master) ∈ F.filterMap Frame.master) ∨ master ∈ m.asked
  closed : m.closed = true → ∀ key, m.owner key = none

/-- **When closing is final**: an entry that is looked for has its socket, and no master is started
or entered after a `Close`. -/
def Final : Condition Memory Frame Answer := fun m _ f o =>
  match f with
  | .acquire host _ .enter | .acquire host _ .recheck => hostKey host ∈ m.active → o.stat = true
  | .acquire _ _ .dial => m.closed = true → o.dial ≠ none
  | .acquire _ _ (.insert _) => m.closed = false
  | _ => True

theorem Booked.drop (h : Booked m (A ++ f :: B)) (hmasters : m'.masters = m.masters)
    (howner : ∀ key x, m'.owner key = some x → m.owner key = some x)
    (hgone : ∀ key host master, m.owner key = some (host, master) →
      m'.owner key = some (host, master) ∨ master ∈ m'.asked)
    (hasked : ∀ master ∈ m.asked, master ∈ m'.asked)
    (hclosed : m'.closed = true → m.closed = true ∨ ∀ key, m'.owner key = none)
    (hdials : ∀ host ∈ made.filterMap Frame.dials, m.owner (hostKey host) = none)
    (hmaster : made.filterMap Frame.master = f.master.toList) : Booked m' (A ++ (made ++ B)) := by
  have hnone : ∀ key, m.owner key = none → m'.owner key = none := by
    intro key hkey
    rcases hx : m'.owner key with _ | x
    · rfl
    · rw [howner key x hx] at hkey
      cases hkey
  have hperm := held_same_perm A B hmaster
  refine ⟨?_, ?_, ?_, ?_, ?_⟩
  · refine forall_mem_made (fun g hg host hd => ?_) (fun g hg host hd => ?_)
    · exact hnone _ (h.absent g (mem_of_mem_rest hg) host hd)
    · exact hnone _ (hdials host (mem_filterMap.mpr ⟨g, hg, hd⟩))
  · exact fun key host master hx => h.reachable key host master (howner key _ hx)
  · exact fun host master hx => h.inserts host master (hperm.mem_iff.mp hx)
  · intro master hlt
    rw [hmasters] at hlt
    rcases h.masters master hlt with ⟨key, host, hx⟩ | ⟨host, hmem⟩ | hmem
    · rcases hgone key host master hx with hx | hmem
      · exact .inl ⟨key, host, hx⟩
      · exact .inr (.inr hmem)
    · exact .inr (.inl ⟨host, hperm.mem_iff.mpr hmem⟩)
    · exact .inr (.inr (hasked master hmem))
  · intro hc key
    rcases hclosed hc with hc | hall
    · exact hnone key (h.closed hc key)
    · exact hall key

theorem Booked.of_same (h : Booked m (A ++ f :: B)) (howner : m'.owner = m.owner)
    (hmasters : m'.masters = m.masters) (hasked : m'.asked = m.asked)
    (hclosed : m'.closed = m.closed)
    (hdials : ∀ host ∈ made.filterMap Frame.dials, m.owner (hostKey host) = none)
    (hmaster : made.filterMap Frame.master = f.master.toList) : Booked m' (A ++ (made ++ B)) :=
  h.drop hmasters (fun _ _ hx => howner ▸ hx) (fun _ _ _ hx => .inl (howner ▸ hx))
    (fun _ hmem => hasked ▸ hmem) (fun hc => .inl (hclosed ▸ hc)) hdials hmaster

theorem asked_of_closeEntry (o : Answer) (entry : ControlEntry) (h : Reachable entry.host) :
    (closeEntry o entry).2 = some entry.master := by
  obtain ⟨dest, hdest⟩ := h
  rw [closeEntry, hdest]

theorem booked_closeHost (h : Booked m (A ++ Frame.closeHost host :: B)) (err : Option String) :
    Booked (closeHostStep m o host).1 (A ++ ([Frame.ret "" err] ++ B)) := by
  rcases hentry : m.active.lookup (hostKey host) with _ | entry
  · rw [closeHostStep, hentry]
    exact h.of_same rfl rfl rfl rfl (forall_mem_nil _) rfl
  · have hentry' : m.owner (hostKey host) = some (entry.host, entry.master) := by
      rw [Memory.owner, hentry]
      rfl
    have hasked := asked_of_closeEntry o entry (h.reachable _ _ _ hentry')
    rw [closeHostStep, hentry]
    have howner : ∀ key, ({ m with
        active := m.active.erase (hostKey host)
        asked := (closeEntry o entry).2.toList ++ m.asked } : Memory).owner key =
          if key = hostKey host then none else m.owner key := by
      intro key
      rw [Memory.owner]
      split_ifs with hkey
      · rw [hkey, AList.lookup_erase]
        rfl
      · rw [AList.lookup_erase_ne hkey]
        rfl
    refine h.drop rfl (fun key x hx => ?_) (fun key host' master hx => ?_) (fun master hmem => ?_)
      .inl (forall_mem_nil _) rfl
    · rw [howner] at hx
      exact (Option.ite_none_left_eq_some.mp hx).2
    · rw [howner]
      split_ifs with hkey
      · subst hkey
        cases hentry'.symm.trans hx
        exact .inr (mem_append_left _ (by rw [hasked]; exact mem_singleton_self _))
      · exact .inl hx
    · exact mem_append_right _ hmem

theorem booked_close (h : Booked m (A ++ Frame.close :: B)) (err : Option String) :
    Booked (closeStep m o).1 (A ++ ([Frame.ret "" err] ++ B)) := by
  have hempty : ∀ key, (closeStep m o).1.owner key = none := fun key => by
    rw [Memory.owner, closeStep, AList.lookup_empty, Option.map_none]
  refine h.drop rfl (fun key x hx => ?_) (fun key host' master hx => .inr ?_)
    (fun master hmem => ?_)
    (fun _ => .inr hempty) (forall_mem_nil _) rfl
  · cases hx
  · obtain ⟨entry, hentry, heq⟩ := Option.map_eq_some_iff.mp hx
    cases heq
    refine mem_append_left _ (mem_filterMap.mpr ⟨closeEntry o entry, ?_,
      asked_of_closeEntry o entry (h.reachable key _ _ hx)⟩)
    exact mem_map.mpr ⟨entry, mem_map.mpr
      ⟨⟨key, entry⟩, GoMap.mem_entries_of_lookup hentry, rfl⟩, rfl⟩
  · exact mem_append_right _ hmem

theorem booked_insert {late : Bool} {master : ℕ}
    (hlocked : Locked m (A ++ Frame.acquire host late (.insert master) :: B))
    (h : Booked m (A ++ Frame.acquire host late (.insert master) :: B)) (hopen : m.closed = false)
    (socketPath : String) :
    Booked { m with active := m.active.insert (hostKey host) ⟨host, socketPath, 1, master⟩ }
      (A ++ ([Frame.acquire host late (.unlock socketPath none)] ++ B)) := by
  have hperm := held_perm A B (.acquire host late (.insert master)) Frame.master
  have hperm' := held_made_perm A B [.acquire host late (.unlock socketPath none)]
    Frame.master
  have hfree : m.owner (hostKey host) = none :=
    h.absent _ mem_subject host rfl
  have howner : ∀ key, ({ m with
      active := m.active.insert (hostKey host) ⟨host, socketPath, 1, master⟩ } : Memory).owner key =
        if key = hostKey host then some (host, master) else m.owner key := by
    intro key
    rw [owner_insert (hostKey host) key rfl]
    rfl
  refine ⟨?_, fun key host' master' hx => ?_, fun host' master' hx => ?_, fun master' hlt => ?_,
    fun hc => ?_⟩
  · -- nobody else dials this host, as its lock is taken
    refine forall_mem_made (fun g hg host' hd => ?_) (fun g hg host' hd => ?_)
    · have hother : hostKey host' ≠ hostKey host := by
        intro heq
        have hlock : hostKey host ∈ (A ++ B).filterMap Frame.locks :=
          mem_filterMap.mpr ⟨g, hg, heq ▸ locks_of_dials hd⟩
        exact not_mem_held A B hlocked.nodup rfl hlock
      rw [howner, if_neg hother]
      exact h.absent g (mem_of_mem_rest hg) host' hd
    · cases mem_singleton.mp hg
      cases hd
  · rw [howner] at hx
    split_ifs at hx with hkey
    · cases hx
      exact h.inserts host master (hperm.mem_iff.mpr mem_cons_self)
    · exact h.reachable key host' master' hx
  · exact h.inserts host' master' (hperm.mem_iff.mpr (mem_cons_of_mem _ (hperm'.mem_iff.mp hx)))
  · rcases h.masters master' hlt with ⟨key, host', hx⟩ | ⟨host', hmem⟩ | hmem
    · refine .inl ⟨key, host', ?_⟩
      rw [howner, if_neg, hx]
      rintro rfl
      rw [hfree] at hx
      cases hx
    · rcases mem_cons.mp (hperm.mem_iff.mp hmem) with heq | hmem
      · cases heq
        exact .inl ⟨hostKey host, host, by rw [howner, if_pos rfl]⟩
      · exact .inr (.inl ⟨host', hperm'.mem_iff.mpr hmem⟩)
    · exact .inr (.inr hmem)
  · exact absurd (hopen.symm.trans hc) Bool.false_ne_true

theorem booked_dial {late : Bool} {dest : String} (hdest : sshDestination host = .ok dest)
    (h : Booked m (A ++ Frame.acquire host late .dial :: B)) :
    Booked { m with masters := m.masters + 1 }
      (A ++ ([Frame.acquire host late (.insert m.masters)] ++ B)) := by
  have hperm := held_perm A B (.acquire host late .dial) Frame.master
  have hperm' := held_made_perm A B [.acquire host late (.insert m.masters)] Frame.master
  refine ⟨?_, h.reachable, fun host' master hx => ?_, fun master hlt => ?_, h.closed⟩
  · refine forall_mem_made (forall_mem_others h.absent)
      fun g hg host' hd => ?_
    cases mem_singleton.mp hg
    cases hd
    exact h.absent _ mem_subject host rfl
  · rcases mem_cons.mp (hperm'.mem_iff.mp hx) with heq | hx
    · cases heq
      exact ⟨dest, hdest⟩
    · exact h.inserts host' master (hperm.mem_iff.mpr hx)
  · rcases Nat.lt_succ_iff_lt_or_eq.mp hlt with hlt | rfl
    · refine (h.masters master hlt).imp_right (Or.imp_left ?_)
      rintro ⟨host', hmem⟩
      exact ⟨host', hperm'.mem_iff.mpr (mem_cons_of_mem _ (hperm.mem_iff.mp hmem))⟩
    · exact .inr (.inl ⟨host, hperm'.mem_iff.mpr mem_cons_self⟩)

/-- **Every section keeps the books.** -/
theorem booked_step (hlocked : Locked m (A ++ f :: B)) (h : Booked m (A ++ f :: B))
    (hfinal : Final m (A ++ f :: B) f o) (hstep : step socketDir m o f = some (m', made)) :
    Booked m' (A ++ (made ++ B)) := by
  cases f with
  | acquire host late p =>
    cases p with
    | enter =>
      cases hstep
      refine h.of_same (owner_reuse hfinal).1 (by rw [reuse_eq]) (by rw [reuse_eq])
        (by rw [reuse_eq]) ?_ ?_
      · rcases (reuse m o (hostKey host)).2 <;> exact forall_mem_nil _
      · rcases (reuse m o (hostKey host)).2 <;> rfl
    | lock =>
      rw [step, acquireStep] at hstep
      split_ifs at hstep
      cases hstep
      exact h.of_same rfl rfl rfl rfl (forall_mem_nil _) rfl
    | recheck =>
      cases hstep
      refine h.of_same (owner_reuse hfinal).1 (by rw [reuse_eq]) (by rw [reuse_eq])
        (by rw [reuse_eq]) ?_ ?_
      · rcases hfound : (reuse m o (hostKey host)).2 with _ | socket
        · exact forall_mem_singleton.mpr ((owner_reuse hfinal).2 hfound)
        · exact forall_mem_nil _
      · rcases (reuse m o (hostKey host)).2 <;> rfl
    | dial =>
      rw [step, acquireStep] at hstep
      split at hstep <;> cases hstep
      · exact h.of_same rfl rfl rfl rfl (forall_mem_nil _) rfl
      · exact h.of_same rfl rfl rfl rfl (forall_mem_nil _) rfl
      · rename_i hdest _
        exact booked_dial hdest h
    | insert master =>
      cases hstep
      exact booked_insert hlocked h hfinal _
    | unlock socket err =>
      cases hstep
      exact h.of_same rfl rfl rfl rfl (forall_mem_nil _) rfl
  | release host =>
    cases hstep
    exact h.of_same owner_release (by rw [releaseStep_eq]) (by rw [releaseStep_eq])
      (by rw [releaseStep_eq]) (forall_mem_nil _) rfl
  | closeHost host =>
    cases hstep
    exact booked_closeHost h _
  | close =>
    cases hstep
    exact booked_close h _
  | ret =>
    cases hstep
    exact h.of_same rfl rfl rfl rfl (forall_mem_nil _) rfl

/-! ### Calls after a `Close` -/

/-- An `Acquire` that was called when the pool had been closed. -/
def Frame.late : Frame → Bool
  | .acquire _ late _ => late
  | _ => false

/-- **Who comes after a `Close` has no master.** -/
def Barred (m : Memory) (F : List Frame) : Prop :=
  ∀ f ∈ F, f.late = true → m.closed = true ∧ f.master = none

theorem barred_step (h : Barred m (A ++ f :: B)) (hfinal : Final m (A ++ f :: B) f o)
    (hstep : step socketDir m o f = some (m', made)) : Barred m' (A ++ (made ++ B)) := by
  -- a `Close` is not taken back, and a section makes at most one of the same kind
  have hkeeps : (m.closed = true → m'.closed = true) ∧
      ∀ g ∈ made, g.late = true → f.late = true ∧ (m.closed = true → g.master = none) := by
    cases f with
    | acquire host late p =>
      cases p with
      | enter | recheck =>
        cases hstep
        refine ⟨fun hc => by rwa [reuse_eq], fun g hg hlate => ?_⟩
        cases mem_singleton.mp hg
        rcases hfound : (reuse m o (hostKey host)).2 with _ | socket <;> rw [hfound] at hlate <;>
          first | exact ⟨hlate, fun _ => rfl⟩ | cases hlate
      | lock =>
        rw [step, acquireStep] at hstep
        split_ifs at hstep
        cases hstep
        refine ⟨id, fun g hg hlate => ?_⟩
        cases mem_singleton.mp hg
        exact ⟨hlate, fun _ => rfl⟩
      | dial =>
        rw [step, acquireStep] at hstep
        split at hstep <;> cases hstep <;> refine ⟨id, fun g hg hlate => ?_⟩ <;>
          cases mem_singleton.mp hg <;> refine ⟨hlate, fun hc => ?_⟩
        · rfl
        · rfl
        · rename_i hdial
          exact absurd hdial (hfinal hc)
      | insert | unlock =>
        cases hstep
        refine ⟨id, fun g hg hlate => ?_⟩
        cases mem_singleton.mp hg
        first | exact ⟨hlate, fun _ => rfl⟩ | cases hlate
    | release host =>
      cases hstep
      refine ⟨fun hc => ?_, fun g hg hlate => by cases mem_singleton.mp hg; cases hlate⟩
      rwa [releaseStep_eq]
    | closeHost host =>
      cases hstep
      refine ⟨fun hc => ?_, fun g hg hlate => by cases mem_singleton.mp hg; cases hlate⟩
      rw [closeHostStep]
      split <;> exact hc
    | close =>
      cases hstep
      exact ⟨fun _ => rfl, fun g hg hlate => by cases mem_singleton.mp hg; cases hlate⟩
    | ret =>
      cases hstep
      exact ⟨id, forall_mem_nil _⟩
  refine forall_mem_made (fun g hg hlate => ?_) (fun g hg hlate => ?_)
  · obtain ⟨hclosed, hmaster⟩ := h g (mem_of_mem_rest hg) hlate
    exact ⟨hkeeps.1 hclosed, hmaster⟩
  · obtain ⟨hf, hmaster⟩ := hkeeps.2 g hg hlate
    obtain ⟨hclosed, -⟩ := h f mem_subject hf
    exact ⟨hkeeps.1 hclosed, hmaster hclosed⟩

/-- **The books are kept in every run** in which closing is final. -/
theorem booked_of_reached {s : State Memory Frame} (h : (pool socketDir).Reached Final {} s) :
    Locked s.memory s.frames ∧ Booked s.memory s.frames ∧ Barred s.memory s.frames := by
  refine h.induction (I := fun m F => Locked m F ∧ Booked m F ∧ Barred m F) ?_ ?_ ?_
  · refine ⟨⟨nodup_nil, ?_⟩, ⟨?_, ?_, ?_, ?_, ?_⟩, ?_⟩
    · exact forall_mem_nil _
    · exact forall_mem_nil _
    · exact fun key host master hx => absurd hx (Option.some_ne_none _).symm
    · exact fun host master hx => absurd hx not_mem_nil
    · exact fun master hlt => absurd hlt (Nat.not_lt_zero master)
    · exact fun hc => absurd hc Bool.false_ne_true
    · exact forall_mem_nil _
  · rintro m F c ⟨hlocked, hbooked, hbarred⟩
    have hbegin : (c.frame m).locks = none ∧ (c.frame m).dials = none ∧ (c.frame m).master = none ∧
        ((c.frame m).late = true → m.closed = true) := by
      cases c <;> exact ⟨rfl, rfl, rfl, fun h => by first | exact h | cases h⟩
    obtain ⟨hlock, hdial, hmaster, hlate⟩ := hbegin
    have hlocks := held_call (c.frame m) Frame.locks F hlock
    have hmasters := held_call (c.frame m) Frame.master F hmaster
    refine ⟨⟨hlocks ▸ hlocked.nodup, hlocks ▸ hlocked.dialing⟩,
      ⟨forall_mem_call hbooked.absent fun host hd => ?_, hbooked.reachable,
        hmasters ▸ hbooked.inserts, hmasters ▸ hbooked.masters, hbooked.closed⟩,
      forall_mem_call hbarred fun hlate' => ⟨hlate hlate', hmaster⟩⟩
    cases hdial.symm.trans hd
  · rintro m A f B o m' made ⟨hlocked, hbooked, hbarred⟩ hfinal hstep
    exact ⟨locked_step hlocked hstep, booked_step hlocked hbooked hfinal hstep,
      barred_step hbarred hfinal hstep⟩

/-- An `Acquire` that was called before the pool was closed. -/
def Frame.early : Frame → Bool
  | .acquire _ late _ => !late
  | _ => false

theorem early_or_late_of_master {x : RemoteHost × ℕ} (h : f.master = some x) :
    f.early = true ∨ f.late = true := by
  rcases f with ⟨_, _ | _, _ | _ | _ | _ | _ | _⟩ | _ | _ | _ | _ <;> cases h
  · exact .inl rfl
  · exact .inr rfl

/-! ### Runs -/

/-- A call `Acquire`, and the sections that take it up to its insertion. -/
def dialGpu (rest : List (Action (ℕ × Answer) Call)) : List (Action (ℕ × Answer) Call) :=
  .call (.acquire { name := "gpu", address := "10.0.0.1", user := "ops" }) ::
    .step 0 (0, {}) :: .step 0 (0, {}) :: .step 0 (0, {}) :: .step 0 (0, {}) :: rest

instance (m : Memory) (F : List Frame) (f : Frame) (o : Answer) : Decidable (Final m F f o) :=
  match f with
  | .acquire host _ .enter | .acquire host _ .recheck =>
    inferInstanceAs (Decidable (hostKey host ∈ m.active → o.stat = true))
  | .acquire _ _ .dial => inferInstanceAs (Decidable (m.closed = true → o.dial ≠ none))
  | .acquire _ _ (.insert _) => inferInstanceAs (Decidable (m.closed = false))
  | .acquire _ _ .lock | .acquire _ _ (.unlock _ _) | .release _ | .closeHost _ | .close |
    .ret _ _ => .isTrue trivial

/-- What can be asked of a run that has ended: the number of entries, the masters that were started
and those that were asked to exit. -/
def Memory.left (m : Memory) : ℕ × ℕ × List ℕ := (m.active.entries.length, m.masters, m.asked)

end ConnectionPool

open ConnectionPool

/-- **Closing the pool is final**: after a `Close`, and when the `Acquire` calls that were in flight
have returned, the pool has no entry and every master that was started was asked to exit – in every
run in which the entries that are looked for have their sockets and no master is started or entered
after a `Close`. -/
theorem closed_of_close (socketDir : String) {s : State Memory Frame}
    (h : (pool socketDir).Reached Final {} s) (hclosed : s.memory.closed = true)
    (hreturned : ∀ f ∈ s.frames, f.early = false) :
    s.memory.active = ∅ ∧ ∀ master < s.memory.masters, master ∈ s.memory.asked := by
  obtain ⟨-, hbooked, hbarred⟩ := booked_of_reached h
  have hempty := hbooked.closed hclosed
  refine ⟨AList.ext_iff.mpr (eq_nil_iff_forall_not_mem.mpr fun e he => ?_),
    fun master hlt => ?_⟩
  · have hkey := hempty e.1
    rw [Memory.owner, GoMap.lookup_of_mem_entries he] at hkey
    cases hkey
  · rcases hbooked.masters master hlt with ⟨key, host, hx⟩ | ⟨host, hmem⟩ | hmem
    · rw [hempty] at hx
      cases hx
    · -- a master that is still to be entered: the call is early, or late and barred
      obtain ⟨f, hf, hmaster⟩ := mem_filterMap.mp hmem
      rcases early_or_late_of_master hmaster with hearly | hlate
      · rw [hreturned f hf] at hearly
        cases hearly
      · rw [(hbarred f hf hlate).2] at hmaster
        cases hmaster
    · exact hmem

/-- One `Acquire`, a `Close` once it has returned, and its master was asked to exit. -/
theorem closed_of_close_gpu : ∃ s, (pool "/tmp").Reached Final {} s ∧ s.memory.masters = 1 ∧
    s.memory.active = ∅ ∧ 0 ∈ s.memory.asked := by
  obtain ⟨s, hs, hclosed, hreturned, hmasters⟩ : ∃ s, (pool "/tmp").Reached Final {} s ∧
      s.memory.closed = true ∧ (∀ f ∈ s.frames, f.early = false) ∧ s.memory.masters = 1 :=
    Reached.of_run (dialGpu [.step 0 (0, {}), .step 0 (0, {}), .step 0 (0, {}),
      .call .close, .step 1 (0, {}), .step 1 (0, {})]) (by decide +kernel)
  obtain ⟨hactive, hasked⟩ := closed_of_close "/tmp" hs hclosed hreturned
  exact ⟨s, hs, hmasters, hactive, hasked 0 (by rw [hmasters]; exact Nat.one_pos)⟩

/-- **An `Acquire` that dials while the pool is closed enters its master afterwards**: all calls
have returned, the pool has an entry, and its master was never asked to exit. -/
theorem acquire_after_close : ∃ s, (pool "/tmp").Reached anyhow {} s ∧
    s.memory.closed = true ∧ s.frames = [] ∧ s.memory.left = (1, 1, []) := by
  exact Reached.of_run (dialGpu [.call .close, .step 1 (0, {}), .step 1 (0, {}),
    .step 0 (0, {}), .step 0 (0, {}), .step 0 (0, {})]) (by decide +kernel)

end Containers.Remote
