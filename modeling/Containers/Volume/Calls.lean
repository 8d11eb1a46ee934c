import Containers.Lib.Sections
import Containers.Volume.Manager

/-!
# Volume mounts, section by section

`DefaultVolumeManager` of `pkg/volume/manager.go` with calls that overlap. The registry is behind a
mutex, and the commands on the hosts run without it, so the states *pending*, *unmounting* and
*syncing* are there to keep calls apart: a `Mount` reserves its name, an `Unmount` or a `Sync` its
entry, each in the section that looks at it.

The entries are pointers, and a call goes on with the entry that it has found, whatever the registry
says by then. With the registry there is a list of the operations that took effect on the hosts – a
mount that succeeded, an unmount that did – for a directory of a host; no section reads it. What
comes from outside: the host registry, and what comes of a command. The texts of the commands are
left out.
-/

namespace Containers.Volume

open Go Remote List Option GoMap

namespace VolumeCalls

/-- An operation on a directory of a host that took effect: a mount, or an unmount. -/
structure Op where
  hostName : String
  remotePath : String
  mounted : Bool
  deriving DecidableEq

/-- **What the calls share**: the registry, with the entries that its pointers stand for, and the
operations that took effect on the hosts, the last one first. -/
structure Memory where
  mounts : GoMap String ℕ := ∅
  info : ℕ → MountInfo := fun _ => ⟨{}, .pending, ""⟩
  /-- The number of entries that were made; the next one gets this pointer. -/
  created : ℕ := 0
  ops : List Op := []

/-- The commands of a mounter, one after the other. -/
inductive WorkPoint where
  | dir
  | cmd
  /-- A copy that is to be read only. -/
  | chmod
  deriving DecidableEq

/-- Where a `Mount` is, after it has reserved its name. -/
inductive MountPoint where
  | host
  | work (host : RemoteHost) (p : WorkPoint)
  | finish (err : Option String)
  | unreserve (err : String)

/-- Where an `Unmount` is, after it has reserved its entry. -/
inductive UnmountPoint where
  | host
  | cmd (host : RemoteHost)
  | fail (err : String)
  | restore (err : String)
  | delete

/-- What an `UnmountAll` goes on with: the names that are left, and the first error. -/
abbrev Rest := Option (List String × Option String)

/-- A call in flight. -/
inductive Frame where
  | mountEnter (v : VolumeMount)
  | mount (x : ℕ) (p : MountPoint)
  /-- `Unmount`: alone, or from a loop over further names. -/
  | unmountEnter (name : String) (rest : Rest)
  | unmount (name : String) (x : ℕ) (prev : MountState) (p : UnmountPoint) (rest : Rest)
  | unmountAll
  | unmounting (names : List String) (firstErr : Option String)
  | sync (name : String)
  | syncHost (name : String) (x : ℕ)
  | syncReserve (name : String) (x : ℕ) (host : RemoteHost)
  | syncing (x : ℕ) (host : RemoteHost) (p : WorkPoint)
  | synced (x : ℕ) (err : Option String)
  | ret (err : Option String)

variable {name : String} {rest : Rest} {g : Frame}

/-- What comes from outside. -/
structure Answer where
  getHost : Except String (Option RemoteHost) := .ok none
  /-- A command fails to run, or exits with a code and what it wrote to its standard error. -/
  execute : Except String (ℤ × String) := .ok (0, "")
  /-- Which of the names that are left a loop goes on with. -/
  pick : ℕ := 0

/-! ### The mounters -/

def failure (onError onExit : String) : Except String (ℤ × String) → Option String
  | .error err => some (onError ++ ": " ++ err)
  | .ok (code, stderr) =>
    if code ≠ 0 then some (onExit ++ ": exit " ++ toString code ++ ": " ++ stderr) else none

/-- What a mounter fails with before its first command: a mount needs to know where it is mounted
from. -/
def unaddressed (localHostAddress : String) (v : VolumeMount) : Option String :=
  if localHostAddress = "" then
    match v.mountType with
    | .sshfs =>
        some ("sshfs mount " ++ quoted v.name ++ ": no local host address configured (see " ++
        "WithLocalHostAddress); refusing to build a mount command using LocalPath (" ++
        v.localPath ++ ") with no \"[user@]host:\" source prefix")
    | .nfs =>
        some ("nfs mount " ++ quoted v.name ++ ": no local host address configured (see " ++
        "WithLocalHostAddress); refusing to build a mount command using LocalPath (" ++
        v.localPath ++ ") as both the NFS server and the export path")
    | _ => none
  else none

def workFailure (v : VolumeMount) (host : RemoteHost) (p : WorkPoint) :
    Except String (ℤ × String) → Option String :=
  match v.mountType, p with
  | .sshfs, .dir => failure ("create remote dir " ++ v.remotePath) "create remote dir"
  | _, .dir => failure "create remote dir" "create remote dir"
  | .sshfs, .cmd => failure ("sshfs mount on " ++ host.name) ("sshfs mount on " ++ host.name)
  | .nfs, .cmd => failure ("nfs mount on " ++ host.name) ("nfs mount on " ++ host.name)
  | _, .cmd => failure ("rsync to " ++ host.name) ("rsync to " ++ host.name)
  | _, .chmod => failure ("rsync read-only chmod on " ++ host.name)
      ("rsync read-only chmod on " ++ host.name)

def workNext (v : VolumeMount) : WorkPoint → Option WorkPoint
  | .dir => some .cmd
  | .cmd => if v.mountType = .rsync ∧ v.readOnly = true then some .chmod else none
  | .chmod => none

def isLive (v : VolumeMount) : Bool := v.mountType = .sshfs ∨ v.mountType = .nfs

/-! ### The sections -/

namespace Memory

variable (m : Memory)

def setInfo (x : ℕ) (info : MountInfo) : Memory :=
  { m with info := fun y => if y = x then info else m.info y }

/-- A mount of another name on the same directory of the same host. -/
def occupant (v : VolumeMount) : Option ℕ :=
  (m.mounts.entries.map fun e => e.2).find? fun y =>
    (m.info y).mount.hostName = v.hostName ∧ (m.info y).mount.remotePath = v.remotePath

def reserve (v : VolumeMount) : Memory :=
  { m with
    mounts := m.mounts.insert v.name m.created
    created := m.created + 1 }.setInfo m.created ⟨v, .pending, ""⟩

def unreserve (x : ℕ) : Memory :=
  if m.mounts.lookup (m.info x).mount.name = some x then
    { m with mounts := m.mounts.erase (m.info x).mount.name }
  else m

/-- An operation takes effect on the directory of an entry. -/
def took (x : ℕ) (mounted : Bool) : Memory :=
  { m with ops := ⟨(m.info x).mount.hostName, (m.info x).mount.remotePath, mounted⟩ :: m.ops }

end Memory

variable (localHostAddress : String) (m : Memory) (o : Answer)

/-- `Mount`, up to the reservation of its name. -/
def mountEnterStep (v : VolumeMount) : Memory × List Frame :=
  if v.name = "" then (m, [.ret (some "mount name cannot be empty")])
  else if v.name ∈ m.mounts then
    (m, [.ret (some ("mount " ++ quoted v.name ++ " already exists"))])
  else
    match m.occupant v with
    | some y =>
      (m, [.ret (some ("mount " ++ quoted v.name ++ " rejected: host " ++ quoted v.hostName ++
        " remote path " ++ quoted v.remotePath ++ " is already in use by mount " ++
        quoted (m.info y).mount.name))])
    | none => (m.reserve v, [.mount m.created .host])

/-- `Mount`, the look-up of its host and the choice of a mounter. -/
def mountHostStep (v : VolumeMount) : MountPoint :=
  match o.getHost with
  | .error err => .unreserve ("get host " ++ v.hostName ++ ": " ++ err)
  | .ok none => .unreserve ("host " ++ v.hostName ++ " not found")
  | .ok (some host) =>
    match v.mountType with
    | .other type => .unreserve ("unsupported mount type: " ++ type)
    | _ => (unaddressed localHostAddress v).elim (.work host .dir) fun err => .finish (some err)

/-- `Mount`, after the reservation. -/
def mountStep (x : ℕ) : MountPoint → Memory × List Frame
  | .host => (m, [.mount x (mountHostStep localHostAddress o (m.info x).mount)])
  | .work host p =>
    match workFailure (m.info x).mount host p o.execute, workNext (m.info x).mount p with
    | some err, _ => (m, [.mount x (.finish (some err))])
    | none, some p' => (m, [.mount x (.work host p')])
    | none, none =>
      (if isLive (m.info x).mount then m.took x true else m, [.mount x (.finish none)])
  | .finish (some err) =>
    (m.setInfo x { m.info x with state := .failed, error := err }, [.ret (some err)])
  | .finish none => (m.setInfo x { m.info x with state := .mounted }, [.ret none])
  | .unreserve err => (m.unreserve x, [.ret (some err)])

/-- What comes after an `Unmount`. -/
def unmounted (rest : Rest) (err : Option String) : Frame :=
  rest.elim (.ret err) fun r => .unmounting r.1 (r.2 <|> err)

/-- `Unmount`, up to the reservation of its entry. -/
def unmountEnterStep (name : String) (rest : Rest) : Memory × List Frame :=
  match m.mounts.lookup name with
  | none => (m, [unmounted rest (some ("mount " ++ quoted name ++ " not found"))])
  | some x =>
    if (m.info x).state = .unmounting then
      (m, [unmounted rest (some ("mount " ++ quoted name ++ " is already being unmounted"))])
    else
      (m.setInfo x { m.info x with state := .unmounting },
        [.unmount name x (m.info x).state .host rest])

/-- `Unmount`, the look-up of its host and the choice of a mounter. -/
def unmountHostStep (v : VolumeMount) : UnmountPoint :=
  match o.getHost with
  | .error err => .restore ("get host " ++ v.hostName ++ ": " ++ err)
  | .ok none => .restore ("host " ++ v.hostName ++ " not found")
  | .ok (some host) =>
    match v.mountType with
    | .sshfs | .nfs => .cmd host
    | .rsync =>
      .fail ("rsync volumes are not unmountable via this path: remote directory " ++
        quoted v.remotePath ++ " on host " ++ quoted v.hostName ++
        " was populated by rsync copy, not a filesystem mount, and must be reclaimed independently")
    | .other type => .fail ("unsupported mount type for unmount: " ++ type)

/-- What the command of an `Unmount` fails with. -/
def unmountFailure (v : VolumeMount) (host : RemoteHost) : Option String :=
  let what := (if v.mountType = .nfs then "nfs" else "sshfs") ++ " unmount on " ++ host.name
  failure what what o.execute

/-- `Unmount`, after the reservation. -/
def unmountStep (name : String) (x : ℕ) (prev : MountState) (rest : Rest) :
    UnmountPoint → Memory × List Frame
  | .host => (m, [.unmount name x prev (unmountHostStep o (m.info x).mount) rest])
  | .cmd host =>
    match unmountFailure o (m.info x).mount host with
    | some err => (m, [.unmount name x prev (.fail err) rest])
    | none => (m.took x false, [.unmount name x prev .delete rest])
  | .fail err =>
    (m.setInfo x { m.info x with state := .failed, error := err },
      [unmounted rest (some ("unmount " ++ quoted name ++ ": " ++ err))])
  | .restore err =>
    (if m.mounts.lookup name = some x then m.setInfo x { m.info x with state := prev } else m,
      [unmounted rest (some err)])
  | .delete => ({ m with mounts := m.mounts.erase name }, [unmounted rest none])

def typeText : MountType → String
  | .sshfs => "sshfs"
  | .nfs => "nfs"
  | .rsync => "rsync"
  | .other type => type

def step : Frame → Option (Memory × List Frame)
  | .mountEnter v => some (mountEnterStep m v)
  | .mount x p => some (mountStep localHostAddress m o x p)
  | .unmountEnter name rest => some (unmountEnterStep m name rest)
  | .unmount name x prev p rest => some (unmountStep m o name x prev rest p)
  | .unmountAll => some (m, [.unmounting m.mounts.keys none])
  | .unmounting names firstErr =>
    if names = [] then some (m, [.ret firstErr])
    else names[o.pick]?.map fun name =>
      (m, [.unmountEnter name (some (names.eraseIdx o.pick, firstErr))])
  | .sync name =>
    match m.mounts.lookup name with
    | none => some (m, [.ret (some ("mount " ++ quoted name ++ " not found"))])
    | some x =>
      if (m.info x).mount.mountType ≠ .rsync then
        some (m, [.ret (some ("sync " ++ quoted name ++ ": only rsync-type mounts support Sync; " ++
          "mount " ++ quoted name ++ " is type " ++ quoted (typeText (m.info x).mount.mountType)))])
      else some (m, [.syncHost name x])
  | .syncHost name x =>
    match o.getHost with
    | .ok (some host) => some (m, [.syncReserve name x host])
    | _ => some (m, [.ret (some ("host " ++ (m.info x).mount.hostName ++ " not found"))])
  | .syncReserve name x host =>
    if (m.info x).state = .syncing then
      some (m, [.ret (some ("mount " ++ quoted name ++ " is already being synced"))])
    else some (m.setInfo x { m.info x with state := .syncing }, [.syncing x host .dir])
  | .syncing x host p =>
    match workFailure (m.info x).mount host p o.execute, workNext (m.info x).mount p with
    | some err, _ => some (m, [.synced x (some err)])
    | none, some p' => some (m, [.syncing x host p'])
    | none, none => some (m, [.synced x none])
  | .synced x (some err) =>
    some (m.setInfo x { m.info x with state := .failed, error := err }, [.ret (some err)])
  | .synced x none =>
    some (m.setInfo x { m.info x with state := .mounted, error := "" }, [.ret none])
  | .ret _ => some (m, [])

/-- What is called. -/
inductive Call where
  | mount (v : VolumeMount)
  | unmount (name : String)
  | unmountAll
  | sync (name : String)

def Call.frame : Call → Frame
  | .mount v => .mountEnter v
  | .unmount name => .unmountEnter name none
  | .unmountAll => .unmountAll
  | .sync name => .sync name

/-- **The volume manager, section by section.** -/
def volumeManager : Sections Memory Frame Answer Call where
  call _ c := c.frame
  step := step localHostAddress

/-! ### What a section does -/

/-- The entry that a `Mount` in flight has reserved. -/
def Frame.mounting : Frame → Option ℕ
  | .mount x _ => some x
  | _ => none

/-- The entry that a `Mount` or an `Unmount` in flight has reserved. -/
def Frame.busy : Frame → Option ℕ
  | .mount x _ => some x
  | .unmount _ x _ _ _ => some x
  | _ => none

/-- The entry that a `Sync` in flight has found. -/
def Frame.syncs : Frame → Option ℕ
  | .syncHost _ x => some x
  | .syncReserve _ x _ => some x
  | .syncing x _ _ => some x
  | .synced x _ => some x
  | _ => none

/-- The command of the `Mount` may still be to come. -/
def MountPoint.isBefore : MountPoint → Bool
  | .finish _ => false
  | _ => true

def Memory.mark (x : ℕ) (state : MountState) (error : String) : Memory :=
  m.setInfo x ⟨(m.info x).mount, state, error⟩

/-- **What a section does**, with the texts of the errors left open. -/
inductive Effect (m : Memory) : Frame → Memory → List Frame → Prop where
  /-- Nothing; a `Sync` may have found an entry. -/
  | idle {f : Frame} {made : List Frame} : f.busy = none →
      (∀ g ∈ made, g.busy = none ∧ ∀ x ∈ g.syncs, f.syncs = some x ∨
        ∃ name, m.mounts.lookup name = some x ∧ (m.info x).mount.mountType = .rsync) →
      Effect m f m made
  | reserve (v : VolumeMount) : v.name ∉ m.mounts → m.occupant v = none →
      Effect m (.mountEnter v) (m.reserve v) [.mount m.created .host]
  | mountOn (x : ℕ) {p p' : MountPoint} : (p'.isBefore = true → p.isBefore = true) →
      Effect m (.mount x p) m [.mount x p']
  | mounts (x : ℕ) {p : MountPoint} :
      Effect m (.mount x p) (m.took x true) [.mount x (.finish none)]
  | mountDone (x : ℕ) (err : Option String) (state : MountState) (error : String) :
      Effect m (.mount x (.finish err)) (m.mark x state error) [.ret err]
  | unreserve (x : ℕ) (err : String) :
      Effect m (.mount x (.unreserve err)) (m.unreserve x) [.ret (some err)]
  | takeOver (name : String) (x : ℕ) (rest : Rest) : m.mounts.lookup name = some x →
      (m.info x).state ≠ .unmounting →
      Effect m (.unmountEnter name rest) (m.mark x .unmounting (m.info x).error)
        [.unmount name x (m.info x).state .host rest]
  | unmountOn (name : String) (x : ℕ) (prev : MountState) (rest : Rest) {p p' : UnmountPoint} :
      p' ≠ .delete → Effect m (.unmount name x prev p rest) m [.unmount name x prev p' rest]
  | unmounts (name : String) (x : ℕ) (prev : MountState) (rest : Rest) {p : UnmountPoint} :
      Effect m (.unmount name x prev p rest) (m.took x false) [.unmount name x prev .delete rest]
  | leave (name : String) (x : ℕ) (prev : MountState) (rest : Rest) {p : UnmountPoint}
      {m' : Memory} {err : Option String} : m' = m ∨ (∃ state error, m' = m.mark x state error) →
      Effect m (.unmount name x prev p rest) m' [unmounted rest err]
  | delete (name : String) (x : ℕ) (prev : MountState) (rest : Rest) :
      Effect m (.unmount name x prev .delete rest) { m with mounts := m.mounts.erase name }
        [unmounted rest none]
  /-- A `Sync` puts its entry into another state. -/
  | sync {f : Frame} (x : ℕ) (state : MountState) (error : String) {made : List Frame} :
      f.busy = none → f.syncs = some x → (∀ g ∈ made, g.busy = none ∧ ∀ y ∈ g.syncs, y = x) →
      Effect m f (m.mark x state error) made

@[simp] theorem busy_unmounted (rest : Rest) (err : Option String) :
    (unmounted rest err).busy = none := by
  cases rest <;> rfl

@[simp] theorem syncs_unmounted (rest : Rest) (err : Option String) :
    (unmounted rest err).syncs = none := by
  cases rest <;> rfl

variable {localHostAddress m o} {m' : Memory} {made : List Frame} {f : Frame} {x : ℕ}

theorem Effect.over (hf : f.busy = none) (hg : g.busy = none) (hsyncs : g.syncs = none) :
    Effect m f m [g] := by
  refine .idle hf (forall_mem_singleton.mpr ⟨hg, fun x hx => ?_⟩)
  rw [hsyncs] at hx
  cases hx

theorem Effect.syncOn (hf : f.busy = none) (hg : g.busy = none) (hfs : f.syncs = some x)
    (hgs : g.syncs = some x) : Effect m f m [g] := by
  refine .idle hf (forall_mem_singleton.mpr ⟨hg, fun y hy => .inl ?_⟩)
  rw [← hy, hgs, hfs]

theorem effect_of_mountEnterStep {v : VolumeMount} (h : mountEnterStep m v = (m', made)) :
    Effect m (.mountEnter v) m' made := by
  rw [mountEnterStep] at h
  split_ifs at h with hempty hexists
  · cases h
    exact .over rfl rfl rfl
  · cases h
    exact .over rfl rfl rfl
  · split at h <;> cases h
    · exact .over rfl rfl rfl
    · exact .reserve v hexists ‹_›

theorem effect_of_mountStep {p : MountPoint} (h : mountStep localHostAddress m o x p = (m', made)) :
    Effect m (.mount x p) m' made := by
  cases p with
  | host =>
    cases h
    exact .mountOn x fun _ => rfl
  | work host p =>
    rw [mountStep] at h
    split at h
    · cases h
      exact .mountOn x fun _ => rfl
    · cases h
      exact .mountOn x fun _ => rfl
    · split_ifs at h <;> cases h
      · exact .mounts x
      · exact .mountOn x fun h => absurd h Bool.false_ne_true
  | finish err =>
    cases err <;> cases h
    · exact .mountDone x none _ _
    · exact .mountDone x _ _ _
  | unreserve err =>
    cases h
    exact .unreserve x err

theorem effect_of_unmountEnterStep
    (h : unmountEnterStep m name rest = (m', made)) :
    Effect m (.unmountEnter name rest) m' made := by
  rw [unmountEnterStep] at h
  split at h
  · cases h
    exact .over rfl (busy_unmounted _ _) (syncs_unmounted _ _)
  · rename_i x hx
    split_ifs at h with hstate <;> cases h
    · exact .over rfl (busy_unmounted _ _) (syncs_unmounted _ _)
    · exact .takeOver name x rest hx hstate

theorem unmountHostStep_ne_delete (o : Answer) (v : VolumeMount) :
    unmountHostStep o v ≠ .delete := by
  rw [unmountHostStep]
  split
  · simp
  · simp
  · split <;> simp

theorem effect_of_unmountStep {prev : MountState} {p : UnmountPoint}
    (h : unmountStep m o name x prev rest p = (m', made)) :
    Effect m (.unmount name x prev p rest) m' made := by
  cases p with
  | host =>
    cases h
    exact .unmountOn name x prev rest (unmountHostStep_ne_delete _ _)
  | cmd host =>
    rw [unmountStep] at h
    split at h <;> cases h
    · exact .unmountOn name x prev rest (by simp)
    · exact .unmounts name x prev rest
  | fail err =>
    cases h
    exact .leave name x prev rest (.inr ⟨_, _, rfl⟩)
  | restore err =>
    rw [unmountStep] at h
    split_ifs at h <;> cases h
    · exact .leave name x prev rest (.inr ⟨_, _, rfl⟩)
    · exact .leave name x prev rest (.inl rfl)
  | delete =>
    cases h
    exact .delete name x prev rest

/-- **Every section has one of the effects.** -/
theorem effect_of_step (h : step localHostAddress m o f = some (m', made)) :
    Effect m f m' made := by
  cases f with
  | mountEnter v => exact effect_of_mountEnterStep (some_inj.mp h)
  | mount x p => exact effect_of_mountStep (some_inj.mp h)
  | unmountEnter name rest => exact effect_of_unmountEnterStep (some_inj.mp h)
  | unmount name x prev p rest => exact effect_of_unmountStep (some_inj.mp h)
  | unmountAll =>
    cases h
    exact .over rfl rfl rfl
  | unmounting names firstErr =>
    rw [step] at h
    split_ifs at h
    · cases h
      exact .over rfl rfl rfl
    · obtain ⟨name, -, heq⟩ := map_eq_some_iff.mp h
      cases heq
      exact .over rfl rfl rfl
  | sync name =>
    rw [step] at h
    split at h
    · cases h
      exact .over rfl rfl rfl
    · rename_i x hx
      split_ifs at h with htype <;> cases h
      · exact .over rfl rfl rfl
      · refine .idle rfl (forall_mem_singleton.mpr ⟨rfl, fun y hy => .inr ⟨name, ?_⟩⟩)
        cases hy
        exact ⟨hx, not_not.mp htype⟩
  | syncHost name x =>
    rw [step] at h
    split at h <;> cases h
    · exact .syncOn rfl rfl rfl rfl
    · exact .over rfl rfl rfl
  | syncReserve name x host =>
    rw [step] at h
    split_ifs at h <;> cases h
    · exact .over rfl rfl rfl
    · exact .sync x _ _ rfl rfl (forall_mem_singleton.mpr
        ⟨rfl, fun y hy => (some_inj.mp hy).symm⟩)
  | syncing x host p =>
    rw [step] at h
    split at h <;> cases h
    · exact .syncOn rfl rfl rfl rfl
    · exact .syncOn rfl rfl rfl rfl
    · exact .syncOn rfl rfl rfl rfl
  | synced x err =>
    cases err <;> cases h
    · exact .sync x _ _ rfl rfl (forall_mem_singleton.mpr ⟨rfl, by simp [Frame.syncs]⟩)
    · exact .sync x _ _ rfl rfl (forall_mem_singleton.mpr ⟨rfl, by simp [Frame.syncs]⟩)
  | ret err =>
    cases h
    exact .idle rfl (forall_mem_nil _)

/-! ### The registered mounts -/

section Registered

variable {n n' : String} {v : VolumeMount} {x y : ℕ}

theorem lookup_reserve_iff : (m.reserve v).mounts.lookup n = some x ↔
    n = v.name ∧ x = m.created ∨ n ≠ v.name ∧ m.mounts.lookup n = some x :=
  lookup_insert_iff

@[simp] theorem info_reserve_created : (m.reserve v).info m.created = ⟨v, .pending, ""⟩ :=
  if_pos rfl

theorem info_reserve (hx : x < m.created) : (m.reserve v).info x = m.info x :=
  if_neg (Nat.ne_of_lt hx)

theorem info_mark_self (x : ℕ) (state : MountState) (error : String) :
    (m.mark x state error).info x = ⟨(m.info x).mount, state, error⟩ :=
  if_pos rfl

theorem info_mark_of_ne (hy : y ≠ x) (state : MountState) (error : String) :
    (m.mark x state error).info y = m.info y :=
  if_neg hy

@[simp] theorem mount_mark (x : ℕ) (state : MountState) (error : String) (y : ℕ) :
    ((m.mark x state error).info y).mount = (m.info y).mount := by
  rcases eq_or_ne y x with rfl | hy
  · rw [info_mark_self]
  · rw [info_mark_of_ne hy]

theorem info_unreserve (x : ℕ) : (m.unreserve x).info = m.info := by
  rw [Memory.unreserve]
  split_ifs <;> rfl

theorem created_unreserve (x : ℕ) : (m.unreserve x).created = m.created := by
  rw [Memory.unreserve]
  split_ifs <;> rfl

theorem lookup_of_unreserve (h : (m.unreserve x).mounts.lookup n = some y) :
    m.mounts.lookup n = some y := by
  rw [Memory.unreserve] at h
  split_ifs at h
  · exact (lookup_erase_iff.mp h).2
  · exact h

/-- **The registered mounts after a section** are those from before, unless the section has reserved
one more. -/
theorem Effect.registered (h : Effect m f m' made) :
    (∃ v, f = .mountEnter v ∧ v.name ∉ m.mounts ∧ m.occupant v = none ∧ m' = m.reserve v) ∨
    (m'.created = m.created ∧ (∀ x, (m'.info x).mount = (m.info x).mount) ∧
      ∀ n x, m'.mounts.lookup n = some x → m.mounts.lookup n = some x) := by
  cases h with
  | reserve v hname hoccupant => exact .inl ⟨v, rfl, hname, hoccupant, rfl⟩
  | idle | mountOn | mounts | unmountOn | unmounts => exact .inr ⟨rfl, fun _ => rfl, fun _ _ => id⟩
  | mountDone | takeOver | sync => exact .inr ⟨rfl, mount_mark _ _ _, fun _ _ => id⟩
  | unreserve x err =>
    exact .inr ⟨created_unreserve x, fun y => by rw [info_unreserve],
      fun _ _ => lookup_of_unreserve⟩
  | leave name x prev rest hm =>
    rcases hm with rfl | ⟨state, error, rfl⟩
    · exact .inr ⟨rfl, fun _ => rfl, fun _ _ => id⟩
    · exact .inr ⟨rfl, mount_mark _ _ _, fun _ _ => id⟩
  | delete => exact .inr ⟨rfl, fun _ => rfl, fun _ _ h => (lookup_erase_iff.mp h).2⟩

theorem ne_of_occupant (hoccupant : m.occupant v = none) (hn : m.mounts.lookup n = some x) :
    ¬ ((m.info x).mount.hostName = v.hostName ∧ (m.info x).mount.remotePath = v.remotePath) := by
  have hnone := find?_eq_none.mp hoccupant x
    (mem_map.mpr ⟨⟨n, x⟩, mem_entries_of_lookup hn, rfl⟩)
  simpa using hnone

end Registered

section Registry

/-- **A registry** whose entries stand under their names, are each of one kind, and are in a
relation with each other. -/
structure Registry (P : VolumeMount → Prop) (R : VolumeMount → VolumeMount → Prop) (m : Memory) :
    Prop where
  name : ∀ n x, m.mounts.lookup n = some x → x < m.created ∧ (m.info x).mount.name = n
  each : ∀ n x, m.mounts.lookup n = some x → P (m.info x).mount
  pair : ∀ n x n' x', m.mounts.lookup n = some x → m.mounts.lookup n' = some x' → n ≠ n' →
    R (m.info x).mount (m.info x').mount

def Distinct (u v : VolumeMount) : Prop :=
  ¬ (u.hostName = v.hostName ∧ u.remotePath = v.remotePath)

variable {P : VolumeMount → Prop} {R : VolumeMount → VolumeMount → Prop}

theorem Registry.empty : Registry P R {} where
  name n x h := by cases h
  each n x h := by cases h
  pair n x n' x' h := by cases h

/-- **What a section has to be asked for**, so that it keeps a registry: only a reservation
counts. -/
theorem Registry.step (hm : Registry P R m) (h : Effect m f m' made)
    (hP : ∀ v, f = .mountEnter v → P v)
    (hR : ∀ v n x, f = .mountEnter v → m.occupant v = none → m.mounts.lookup n = some x →
      R (m.info x).mount v ∧ R v (m.info x).mount) : Registry P R m' := by
  rcases h.registered with ⟨v, rfl, -, hoccupant, rfl⟩ | ⟨hcreated, hmount, hlookup⟩
  · have hold : ∀ n x, m.mounts.lookup n = some x → (m.reserve v).info x = m.info x :=
      fun n x hx => info_reserve (hm.name n x hx).1
    refine ⟨fun n x hx => ?_, fun n x hx => ?_, fun n x n' x' hx hx' hne => ?_⟩
    · rcases lookup_reserve_iff.mp hx with ⟨rfl, rfl⟩ | ⟨-, hx⟩
      · exact ⟨Nat.lt_succ_self _, by rw [info_reserve_created]⟩
      · rw [hold n x hx]
        exact ⟨Nat.lt_succ_of_lt (hm.name n x hx).1, (hm.name n x hx).2⟩
    · rcases lookup_reserve_iff.mp hx with ⟨rfl, rfl⟩ | ⟨-, hx⟩
      · rw [info_reserve_created]
        exact hP v rfl
      · rw [hold n x hx]
        exact hm.each n x hx
    · rcases lookup_reserve_iff.mp hx with ⟨rfl, rfl⟩ | ⟨hn, hx⟩
      · rcases lookup_reserve_iff.mp hx' with ⟨rfl, rfl⟩ | ⟨-, hx'⟩
        · exact absurd rfl hne
        · rw [info_reserve_created, hold n' x' hx']
          exact (hR v n' x' rfl hoccupant hx').2
      · rcases lookup_reserve_iff.mp hx' with ⟨rfl, rfl⟩ | ⟨-, hx'⟩
        · rw [info_reserve_created, hold n x hx]
          exact (hR v n x rfl hoccupant hx).1
        · rw [hold n x hx, hold n' x' hx']
          exact hm.pair n x n' x' hx hx' hne
  · refine ⟨fun n x hx => ?_, fun n x hx => ?_, fun n x n' x' hx hx' hne => ?_⟩
    · rw [hcreated, hmount]
      exact hm.name n x (hlookup n x hx)
    · rw [hmount]
      exact hm.each n x (hlookup n x hx)
    · rw [hmount, hmount]
      exact hm.pair n x n' x' (hlookup n x hx) (hlookup n' x' hx') hne

end Registry

end VolumeCalls

end Containers.Volume
