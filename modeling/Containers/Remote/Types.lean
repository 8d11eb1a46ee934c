import Containers.Go.Values

/-!
# Remote hosts and their resource snapshots

The data model of `pkg/remote` as the scheduler and the distributor read it: a
registered host, and the point-in-time snapshot a probe takes of it. Floating
point percentages are exact rationals, `uint64` fields are 64-bit words, and an
`int` field is an integer; a pointer to a snapshot is an `Option`, `none` being
the nil pointer.

Fields no modelled function reads (the host label and timestamp of a snapshot,
its load averages, the key material of a host, the descriptive fields of a GPU)
are left out.
-/

namespace Containers.Remote

open Go

/-- A GPU visible to a host. -/
structure GPUDevice where
  vendor : String := ""
  vramFreeMB : ℤ := 0
  cudaSupported : Bool := false
  computeCapability : String := ""
  nvencSupported : Bool := false
  vulkanSupported : Bool := false
  openCLSupported : Bool := false
  rocmSupported : Bool := false
  deriving DecidableEq, Repr

/-- A snapshot of the resources of a host. -/
structure HostResources where
  cpuPercent : ℚ := 0
  memoryPercent : ℚ := 0
  memoryTotalMB : UInt64 := 0
  memoryUsedMB : UInt64 := 0
  diskPercent : ℚ := 0
  diskTotalMB : UInt64 := 0
  diskUsedMB : UInt64 := 0
  cpuCores : ℤ := 0
  runningContainers : ℤ := 0
  networkRxBytesPerSec : UInt64 := 0
  networkTxBytesPerSec : UInt64 := 0
  gpu : List GPUDevice := []
  deriving DecidableEq, Repr

namespace HostResources

def availableMemoryPercent (r : HostResources) : ℚ := 100 - r.memoryPercent

def availableDiskPercent (r : HostResources) : ℚ := 100 - r.diskPercent

def availableCPUPercent (r : HostResources) : ℚ := 100 - r.cpuPercent

def hasGPU (r : HostResources) : Bool := 0 < r.gpu.length

end HostResources

/-- A map of labels: nil and empty are the same to a reader. -/
abbrev Labels := GoMap String String

/-- **The probe snapshots**, by host name. An entry may hold a nil pointer. -/
abbrev Snapshots := GoMap String (Option HostResources)

/-- A machine that can run containers. -/
structure RemoteHost where
  name : String
  address : String := ""
  port : ℤ := 0
  user : String := ""
  runtime : String := ""
  labels : Labels := ∅
  deriving DecidableEq

/-- `SSHPort`: the configured port, or the default one. -/
def RemoteHost.sshPort (h : RemoteHost) : ℤ := if h.port ≤ 0 then 22 else h.port

theorem RemoteHost.sshPort_pos (h : RemoteHost) : 0 < h.sshPort := by
  rw [sshPort]
  split_ifs <;> omega

end Containers.Remote
