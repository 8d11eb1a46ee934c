import Mathlib.Data.String.Basic

/-!
# Volume mounts

The data model of `pkg/volume` as its callers see it.
-/

namespace Containers.Volume

/-- How a volume is shared. The type is a string of the caller's, so it may be none of
the three that are known. -/
inductive MountType where
  | sshfs
  | nfs
  | rsync
  | other (name : String)
  deriving DecidableEq, Repr

/-- A volume to share with a remote host. -/
structure VolumeMount where
  name : String := ""
  mountType : MountType := .sshfs
  localPath : String := ""
  remotePath : String := ""
  hostName : String := ""
  readOnly : Bool := false
  deriving DecidableEq, Repr

end Containers.Volume
