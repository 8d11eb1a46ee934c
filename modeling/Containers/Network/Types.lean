import Mathlib.Data.String.Basic

/-!
# Tunnels

The data model of `pkg/network` as its callers see it: what a tunnel is asked to be, and
what is known of it once it is there. The process that carries a tunnel, and when it was
started, are left out.
-/

namespace Containers.Network

/-- The direction of an SSH tunnel. -/
inductive TunnelDirection where
  /-- A remote port, accessible locally: `ssh -L`. -/
  | localForward
  /-- A local port, accessible remotely: `ssh -R`. -/
  | remoteForward
  deriving DecidableEq, Repr

/-- A tunnel to create. -/
structure TunnelSpec where
  direction : TunnelDirection := .localForward
  localPort : String := ""
  remoteHost : String := ""
  remotePort : String := ""
  description : String := ""
  deriving DecidableEq, Repr

/-- A tunnel that was created. -/
structure TunnelInfo where
  spec : TunnelSpec
  hostName : String
  deriving DecidableEq, Repr

end Containers.Network
