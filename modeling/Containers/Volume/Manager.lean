import Containers.Remote.Types
import Containers.Volume.Types

/-!
# The volume manager

`DefaultVolumeManager` of `pkg/volume/manager.go`: a registry of mounts by name. `Mount`
reserves the name, looks the host up, lets the mounter of the mount's type do the work, and
keeps the entry – as failed, when the mounter failed; `Unmount` goes the other way and keeps
the entry, as failed, unless the volume is really gone.

What the mounters do on the hosts is a parameter: the error they return for a host and a
mount. The calls are those of a caller that makes one at a time, so the states that only
keep concurrent callers apart (a reserved mount, one that is being unmounted) are passed
through within a call. Timestamps, log lines and the command timeout are left out.
-/

namespace Containers.Volume

open Go Remote AList

/-- The state of a registered mount. -/
inductive MountState where
  | mounted
  | unmounted
  | syncing
  | failed
  | pending
  | unmounting
  deriving DecidableEq, Repr

/-- A registered mount. -/
structure MountInfo where
  mount : VolumeMount
  state : MountState
  error : String := ""
  deriving DecidableEq, Repr

/-- The registry of a volume manager. -/
structure DefaultVolumeManager where
  mounts : GoMap String MountInfo := ∅

/-- What a manager asks of the world: the host registry, and what comes of the work on a
host. -/
structure Mounters where
  getHost : String → Except String (Option RemoteHost)
  mount : RemoteHost → VolumeMount → Option String
  unmount : RemoteHost → VolumeMount → Option String

namespace DefaultVolumeManager

variable (w : Mounters) (m : DefaultVolumeManager)

/-- A mount of another name on the same directory of the same host. -/
def occupant (v : VolumeMount) : Option MountInfo :=
  (m.mounts.entries.map (·.2)).find? fun existing =>
    existing.mount.hostName = v.hostName && existing.mount.remotePath = v.remotePath

def reserve (v : VolumeMount) : DefaultVolumeManager :=
  ⟨m.mounts.insert v.name ⟨v, .pending, ""⟩⟩

def unreserve (v : VolumeMount) : DefaultVolumeManager := ⟨m.mounts.erase v.name⟩

/-- What comes of a reserved mount: an error before the mounter was asked, or what the mounter
answered. -/
def attempt (v : VolumeMount) : Except String (Option String) :=
  match w.getHost v.hostName with
  | .error err => .error ("get host " ++ v.hostName ++ ": " ++ err)
  | .ok none => .error ("host " ++ v.hostName ++ " not found")
  | .ok (some host) =>
    match v.mountType with
    | .sshfs | .nfs | .rsync => .ok (w.mount host v)
    | .other type => .error ("unsupported mount type: " ++ type)

/-- **`Mount`**: the error, and the registry afterwards. -/
def mount (v : VolumeMount) : Option String × DefaultVolumeManager :=
  if v.name = "" then (some "mount name cannot be empty", m)
  else if v.name ∈ m.mounts then (some ("mount " ++ quoted v.name ++ " already exists"), m)
  else match m.occupant v with
    | some existing =>
      (some ("mount " ++ quoted v.name ++ " rejected: host " ++ quoted v.hostName ++
        " remote path " ++ quoted v.remotePath ++ " is already in use by mount " ++
        quoted existing.mount.name), m)
    | none =>
      match attempt w v with
      | .error err => (some err, (m.reserve v).unreserve v)
      | .ok (some err) => (some err, ⟨(m.reserve v).mounts.insert v.name ⟨v, .failed, err⟩⟩)
      | .ok none => (none, ⟨(m.reserve v).mounts.insert v.name ⟨v, .mounted, ""⟩⟩)

/-- What unmounting a registered volume comes to on its host. A copy made by rsync is never
reclaimed this way. -/
def unmountOnHost (host : RemoteHost) (v : VolumeMount) : Option String :=
  match v.mountType with
  | .sshfs | .nfs => w.unmount host v
  | .rsync =>
    some ("rsync volumes are not unmountable via this path: remote directory " ++
      quoted v.remotePath ++ " on host " ++ quoted v.hostName ++
      " was populated by rsync copy, not a filesystem mount, and must be reclaimed independently")
  | .other type => some ("unsupported mount type for unmount: " ++ type)

/-- **`Unmount`**. -/
def unmount (name : String) : Option String × DefaultVolumeManager :=
  match m.mounts.lookup name with
  | none => (some ("mount " ++ quoted name ++ " not found"), m)
  | some info =>
    if info.state = .unmounting then
      (some ("mount " ++ quoted name ++ " is already being unmounted"), m)
    else match w.getHost info.mount.hostName with
      -- before the remote command the state is restored
      | .error err => (some ("get host " ++ info.mount.hostName ++ ": " ++ err), m)
      | .ok none => (some ("host " ++ info.mount.hostName ++ " not found"), m)
      | .ok (some host) =>
        match unmountOnHost w host info.mount with
        | some err =>
          (some ("unmount " ++ quoted name ++ ": " ++ err),
            ⟨m.mounts.insert name { info with state := .failed, error := err }⟩)
        | none => (none, ⟨m.mounts.erase name⟩)

/-- **`UnmountAll`**: every mount in turn; the first error is returned. -/
def unmountAll : Option String × DefaultVolumeManager :=
  m.mounts.keys.foldl (fun r name =>
    let next := unmount w r.2 name
    (r.1 <|> next.1, next.2)) (none, m)

/-! ### What a mount does to the registry -/

variable {w m} {v : VolumeMount}

/-- **What a mount can come to**: it is refused and nothing changes; the reservation is given
back; or the name, which was free, is registered – as failed, or as mounted. -/
theorem mount_cases :
    (∃ err, mount w m v = (some err, m)) ∨
    v.name ∉ m.mounts ∧ ((∃ err, mount w m v = (some err, (m.reserve v).unreserve v)) ∨
      ∃ err info, mount w m v = (err, ⟨(m.reserve v).mounts.insert v.name info⟩)) := by
  unfold mount
  by_cases hname : v.name = ""
  · exact .inl ⟨_, if_pos hname⟩
  · rw [if_neg hname]
    by_cases hmem : v.name ∈ m.mounts
    · exact .inl ⟨_, if_pos hmem⟩
    · rw [if_neg hmem]
      cases m.occupant v with
      | some existing => exact .inl ⟨_, rfl⟩
      | none =>
        refine .inr ⟨hmem, ?_⟩
        cases attempt w v with
        | error err => exact .inl ⟨err, rfl⟩
        | ok result =>
          cases result with
          | some err => exact .inr ⟨_, _, rfl⟩
          | none => exact .inr ⟨_, _, rfl⟩

/-- **A name is mounted once**: `Mount` succeeds only for a name that is not registered, and
registers it. -/
theorem mount_eq_none (h : (mount w m v).1 = none) :
    v.name ∉ m.mounts ∧ v.name ∈ (mount w m v).2.mounts := by
  rcases mount_cases (w := w) (m := m) (v := v) with
    ⟨err, heq⟩ | ⟨hfree, ⟨err, heq⟩ | ⟨err, info, heq⟩⟩
  · exact absurd (heq ▸ h) (by simp)
  · exact absurd (heq ▸ h) (by simp)
  · exact ⟨hfree, heq ▸ (mem_insert _).mpr (.inl rfl)⟩

theorem mem_mount {name : String} (h : name ∈ m.mounts) : name ∈ (mount w m v).2.mounts := by
  rcases mount_cases (w := w) (m := m) (v := v) with
    ⟨err, heq⟩ | ⟨hfree, ⟨err, heq⟩ | ⟨err, info, heq⟩⟩
  · exact heq ▸ h
  · rw [heq]
    exact mem_erase.mpr ⟨fun hv => hfree (hv ▸ h), (mem_insert _).mpr (.inr h)⟩
  · rw [heq]
    exact (mem_insert _).mpr (.inr ((mem_insert _).mpr (.inr h)))

end DefaultVolumeManager

end Containers.Volume
