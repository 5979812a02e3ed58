import BlakTail.Foundation.Address
import BlakTail.Foundation.Table
import BlakTail.Ingress

/-!
# Inbound Policy of the Userspace Filter

`Policy::compile` and `Policy::decide` of the userspace WireGuard dataplanes
(`blaktail-ios-wg/src/filter.rs`).  A policy is compiled from the coordinator's
peer map: per source address an ordered list of rules, with rejects before
accepts, and the routes that attribute an address to a peer.

Numbers follow the source: protocols are `UInt8`, ports are `UInt16`.
-/

namespace BlakTail.Dataplane

open Foundation

/-! ## Protocol numbers -/

/-- IP protocol number of TCP. -/
def TCP : UInt8 := 6
/-- IP protocol number of UDP. -/
def UDP : UInt8 := 17
/-- IP protocol number of ICMP. -/
def ICMP : UInt8 := 1
/-- IP protocol number of ICMPv6. -/
def ICMPV6 : UInt8 := 58

/-! ## The coordinator's peer-map shape -/

/-- Post-quantum hint of one peer. -/
structure PqHint where
  mode : String := ""
  capable : Bool := false

/-- The fields of a peer the filter reads. -/
structure PolicyPeer where
  id : String := ""
  allowedIps : List String := []
  ingress : Option PeerIngress := none
  pq : Option PqHint := none

/-- `*`, `N` or `A-B`; anything else is ignored. -/
def portRange (spec : String) : Option (UInt16 × UInt16) :=
  let spec := Text.trim spec
  if spec = "*" then some (1, 65535)
  else match Text.splitOnce '-' spec with
    | some (start, stop) => do
      let start ← Text.parseU16 start
      let stop ← Text.parseU16 stop
      if start ≠ 0 ∧ stop ≠ 0 ∧ start ≤ stop then
        some (UInt16.ofNat start, UInt16.ofNat stop)
      else none
    | none => do
      let port ← Text.parseU16 spec
      if port ≠ 0 then some (UInt16.ofNat port, UInt16.ofNat port) else none

/-! ## Rules -/

inductive Proto where
  | tcp
  | udp
  | icmp
  | any
  deriving DecidableEq

structure Rule where
  proto : Proto
  ports : UInt16 × UInt16
  accept : Bool
  deriving DecidableEq

/-- `Rule::matches`: ports are compared for TCP and UDP only. -/
def Rule.isMatch (rule : Rule) (proto : UInt8) (port : UInt16) : Bool :=
  match rule.proto with
  | .any => true
  | .icmp => proto == ICMP || proto == ICMPV6
  | .tcp => proto == TCP && (rule.ports.1 ≤ port && port ≤ rule.ports.2)
  | .udp => proto == UDP && (rule.ports.1 ≤ port && port ≤ rule.ports.2)

/-- A network and its number of leading bits. -/
structure Prefix where
  network : IpAddr
  bits : Nat
  deriving DecidableEq

/-- `Prefix::parse`: an address, a slash and a length its family allows. -/
def Prefix.parse (value : String) : Option Prefix := do
  let (address, bits) ← Text.splitOnce '/' value
  let network ← IpAddr.parse (Text.trim address)
  let bits ← Text.parseU8 (Text.trim bits)
  let max := if network.isIpv4 then 32 else 128
  if bits ≤ max then some ⟨network, bits⟩ else none

/-- The mask with `bits` leading ones. -/
def mask (width bits : Nat) : BitVec width :=
  if bits = 0 then 0 else BitVec.allOnes width <<< (width - bits)

/-- `Prefix::contains`: same family and equal under the mask. -/
def Prefix.contains (p : Prefix) (address : IpAddr) : Bool :=
  match p.network, address with
  | .v4 network, .v4 address => network &&& mask 32 p.bits == address &&& mask 32 p.bits
  | .v6 network, .v6 address => network &&& mask 128 p.bits == address &&& mask 128 p.bits
  | _, _ => false

/-- The address of a full-length prefix. -/
def Prefix.host (p : Prefix) : Option IpAddr :=
  let full := if p.network.isIpv4 then 32 else 128
  if p.bits = full then some p.network else none

/-- The rules of one peer at one source address. -/
structure Source where
  peer : Option String
  rules : List Rule

structure Policy where
  enforce : Bool := false
  sources : Table IpAddr (List Source) := ∅
  routes : List (Prefix × String) := []

/-- A trimmed, non-empty peer id. -/
def peerId (id : String) : Option String :=
  let id := Text.trim id
  if id = "" then none else some id

/-! ## Compilation -/

/-- The rules of one ingress grant, rejects before accepts.  TCP 22 is closed to a
source whose SSH grant is user-limited: only Linux can limit users. -/
def compileRules (ingress : PeerIngress) (pqPort : Option UInt16) : List Rule :=
  let pq := match pqPort with
    | some port => [⟨.tcp, (port, port), true⟩]
    | none => []
  let denyTcp :=
    if ingress.sshRestricted && !ingress.denyTcp.contains "22" then ingress.denyTcp ++ ["22"]
    else ingress.denyTcp
  let rejects :=
    (denyTcp.filterMap portRange).map (fun range => Rule.mk .tcp range false) ++
    (ingress.denyUdp.filterMap portRange).map (fun range => Rule.mk .udp range false) ++
    (if ingress.denyIcmp then [⟨.icmp, (0, 0), false⟩] else [])
  let accepts :=
    if ingress.all then [⟨.any, (0, 0), true⟩]
    else
      (ingress.tcp.filterMap portRange).map (fun range => Rule.mk .tcp range true) ++
      (ingress.udp.filterMap portRange).map (fun range => Rule.mk .udp range true) ++
      (if ingress.icmp then [⟨.icmp, (0, 0), true⟩] else [])
  pq ++ rejects ++ accepts

/-- The peer's pair runs the post-quantum exchange. -/
def PolicyPeer.wantsPq (peer : PolicyPeer) : Bool :=
  match peer.pq with
  | some pq => pq.capable && pq.mode != "" && pq.mode != "off"
  | none => false

def Policy.addPeer (pqPort : Option UInt16) (policy : Policy) (peer : PolicyPeer) : Policy :=
  let id := peerId peer.id
  let prefixes := peer.allowedIps.filterMap Prefix.parse
  let routes := match id with
    | some id => policy.routes ++ prefixes.map (fun p => (p, id))
    | none => policy.routes
  if !policy.enforce then { policy with routes := routes }
  else
    -- A missing grant in an enforcing map is `all`, the Linux agent's default.
    let ingress := peer.ingress.getD { all := true }
    let rules := compileRules ingress (if peer.wantsPq then pqPort else none)
    let sources := (prefixes.filterMap Prefix.host).foldl
      (fun sources host => sources.insert host ((sources.lookup host).getD [] ++ [⟨id, rules⟩]))
      policy.sources
    { policy with routes := routes, sources := sources }

namespace Policy

/-- No grants known: nothing is filtered. -/
def allowAll : Policy := {}

/-- `Policy::compile`: enforcing as soon as one peer carries a grant. -/
def compile (peers : List PolicyPeer) (pqPort : Option UInt16) : Policy :=
  peers.foldl (addPeer pqPort) { enforce := peers.any fun peer => peer.ingress.isSome }

/-! ## Decision -/

variable (policy : Policy)

/-- The peer an address is attributed to. -/
def peerFor (address : IpAddr) : Option String :=
  match ((policy.sources.lookup address).getD []).find? (fun entry => entry.peer.isSome) with
  | some entry => entry.peer
  | none => (policy.routes.find? fun (p, _) => p.contains address).map (·.2)

/-- The first rule, over the entries in order, that matches. -/
def firstRule (entries : List Source) (proto : UInt8) (port : UInt16) : Option (Source × Rule) :=
  entries.findSome? fun entry =>
    (entry.rules.find? fun rule => rule.isMatch proto port).map fun rule => (entry, rule)

/-- Verdict for a new inbound flow, the peer it is attributed to and which part of
the filter decided. -/
def decideWithHint (source : IpAddr) (proto : UInt8) (port : UInt16) :
    Bool × Option String × String :=
  match firstRule ((policy.sources.lookup source).getD []) proto port with
  | some (entry, rule) =>
    let allow := !policy.enforce || rule.accept
    (allow, entry.peer, if allow then "acl:allow" else "acl:deny-rule")
  | none => (!policy.enforce, policy.peerFor source, "acl:default")

/-- Verdict for a new inbound flow, plus the peer it is attributed to. -/
def decide (source : IpAddr) (proto : UInt8) (port : UInt16) : Bool × Option String :=
  let (allow, peer, _) := policy.decideWithHint source proto port
  (allow, peer)

/-- The policy lets `source` open a new flow. -/
def allows (source : IpAddr) (proto : UInt8) (port : UInt16) : Bool :=
  (policy.decide source proto port).1

/-- Ports are read for TCP and UDP only, so any two ports get the same verdict
under every other protocol. -/
theorem allows_port_irrelevant (source : IpAddr) {proto : UInt8} (htcp : proto ≠ TCP)
    (hudp : proto ≠ UDP) (port port' : UInt16) :
    policy.allows source proto port = policy.allows source proto port' := by
  have hrule : ∀ rule : Rule, rule.isMatch proto port = rule.isMatch proto port' := by
    intro rule
    have htcp' : (proto == TCP) = false := beq_eq_false_iff_ne.mpr htcp
    have hudp' : (proto == UDP) = false := beq_eq_false_iff_ne.mpr hudp
    cases hproto : rule.proto <;> simp only [Rule.isMatch, hproto, htcp', hudp', Bool.false_and]
  simp only [allows, decide, decideWithHint, firstRule, hrule]

end Policy

end BlakTail.Dataplane
