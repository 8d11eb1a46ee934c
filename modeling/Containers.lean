import Containers.Remote.HostStates
import Containers.Remote.ShellEscape
import Containers.Remote.ConnectionPool
import Containers.Scheduler.Fitting
import Containers.Scheduler.GpuExclusive
import Containers.Scheduler.Labels
import Containers.Scheduler.Sentinel
import Containers.Scheduler.OrderIndependence
import Containers.Scheduler.RoundRobin
import Containers.Scheduler.Spread
import Containers.Network.TunnelCalls
import Containers.Volume.Calls
import Containers.Volume.Directories
import Containers.Volume.Mounted
import Containers.Distribution.Commands
import Containers.Distribution.Again
import Containers.Distribution.Marking
import Containers.Lifecycle.Running
import Containers.Lifecycle.Idle
import Containers.Lifecycle.Deadlock
import Containers.Lifecycle.Monitoring
import Containers.Lifecycle.Coalescing
import Containers.Orchestrator.Teardown
import Containers.Boot.Rollback
import Containers.Event.Delivery
import Containers.ServiceRegistry.Addresses
import Containers.ServiceRegistry.Files
import Containers.Emulator.Boot
import Containers.Cache.Sweep
import Containers.LazyService.Starts
import Containers.LazyService.Stacks
import Containers.Crossbuild.Links
import Containers.EnvConfig.Uses
import Containers.Buildpkg.Commands
import Containers.Ctop.Collector
import Containers.Policy.Caps
import Containers.Vm.Matrix
