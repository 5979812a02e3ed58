import Mathlib

/-!
# Compiled Ingress Grants

The per-peer grant of the peer map.  The coordinator compiles it, and the Linux
agent and the userspace filter enforce it; the three crates declare the same
record (`PeerIngress` in the coordinator and the agent, `Ingress` in the filter),
so the development has one.
-/

namespace BlakTail

/-- What one peer may send to the device holding the peer map. -/
structure PeerIngress where
  all : Bool := false
  tcp : List String := []
  udp : List String := []
  icmp : Bool := false
  denyTcp : List String := []
  denyUdp : List String := []
  denyIcmp : Bool := false
  sshUsers : List String := []
  sshDenyUsers : List String := []
  deriving DecidableEq

/-- An SSH grant that names users, or denies some, needs per-user sshd limits. -/
def PeerIngress.sshRestricted (ingress : PeerIngress) : Bool :=
  let unrestricted := ingress.sshUsers == ["*"] && ingress.sshDenyUsers.isEmpty
  !ingress.sshUsers.isEmpty && !unrestricted

end BlakTail
