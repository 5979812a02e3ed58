import BlakTail.Foundation.Fallible
import BlakTail.Dataplane.Policy

/-!
# Packet Parsing

`parse` and `parse_embedded` of the userspace filter: the IPv4 header, the IPv6
header with its walk over extension headers, and the transport header as far as
connection tracking needs it.

A read outside the slice is kept apart from a malformed packet: `data.get(i)?`
ends in `Fault.malformed`, `data[i]` in `Fault.outOfBounds`, where the program
would stop.
-/

namespace BlakTail.Dataplane

open Foundation

/-- IPv6 extension headers walked before a packet is treated as malformed. -/
def MAX_EXT_HEADERS : Nat := 8

/-! ## Reading bytes -/

/-- Why parsing stopped. -/
inductive Fault where
  | malformed
  | outOfBounds
  deriving DecidableEq

def byteAt (data : List UInt8) (i : Nat) : Except Fault UInt8 :=
  match data[i]? with
  | some b => .ok b
  | none => .error .malformed

/-- The byte read by `data[i]`. -/
def byteIndex (data : List UInt8) (i : Nat) : Except Fault UInt8 :=
  match data[i]? with
  | some b => .ok b
  | none => .error .outOfBounds

/-- Two bytes in network order. -/
def be16 (data : List UInt8) (i : Nat) : Except Fault UInt16 := do
  let hi ← byteAt data i
  let lo ← byteAt data (i + 1)
  return hi.toUInt16 <<< 8 ||| lo.toUInt16

/-- The bytes read by `data.get(i..j)?`. -/
def sliceAt (data : List UInt8) (i j : Nat) : Except Fault (List UInt8) :=
  if i ≤ j ∧ j ≤ data.length then .ok ((data.take j).drop i) else .error .malformed

def sliceIndex (data : List UInt8) (i j : Nat) : Except Fault (List UInt8) :=
  if i ≤ j ∧ j ≤ data.length then .ok ((data.take j).drop i) else .error .outOfBounds

/-! ## Packets -/

/-- What the fragments of one datagram share. -/
structure FragmentKey where
  source : IpAddr
  destination : IpAddr
  proto : UInt8
  ident : Nat
  deriving DecidableEq

/-- Where a packet stands in its datagram. -/
inductive Fragment where
  | whole
  | first (key : FragmentKey)
  | later (key : FragmentKey)
  deriving DecidableEq

/-- The packet has no transport header of its own. -/
def Fragment.isLater : Fragment → Bool
  | later _ => true
  | _ => false

theorem Fragment.isLater_eq_false {fragment : Fragment} (h : ∀ key, fragment ≠ later key) :
    fragment.isLater = false := by
  cases fragment with
  | later key => exact absurd rfl (h key)
  | whole | first key => rfl

/-- Transport header, as far as it is read. -/
inductive L4 where
  | ports (source destination : UInt16) (flags : UInt8)
  | icmp (kind : UInt8) (ident : UInt16) (body : Nat)
  | other
  deriving DecidableEq

structure Packet where
  source : IpAddr
  destination : IpAddr
  proto : UInt8
  l4 : L4
  fragment : Fragment
  len : Nat
  deriving DecidableEq

/-- The network header: everything before the transport header is looked for. -/
structure Header where
  source : IpAddr
  destination : IpAddr
  proto : UInt8
  offset : Nat
  fragment : Fragment
  data : List UInt8

/-! ## Network headers -/

def ipv4Header (data : List UInt8) : Except Fault Header := do
  let ihl := ((← byteAt data 0) &&& 0x0f).toNat * 4
  let total := (← be16 data 2).toNat
  if ihl < 20 ∨ total < ihl ∨ data.length < total then .error .malformed
  else
    let data := data.take total
    let proto ← byteIndex data 9
    let source := IpAddr.ofBytes4
      [← byteIndex data 12, ← byteIndex data 13, ← byteIndex data 14, ← byteIndex data 15]
    let destination := IpAddr.ofBytes4
      [← byteIndex data 16, ← byteIndex data 17, ← byteIndex data 18, ← byteIndex data 19]
    let flags ← be16 data 6
    let key : FragmentKey := ⟨source, destination, proto, (← be16 data 4).toNat⟩
    let fragment :=
      if flags &&& 0x1fff ≠ 0 then .later key
      else if flags &&& 0x2000 ≠ 0 then .first key
      else .whole
    return ⟨source, destination, proto, ihl, fragment, data⟩

/-- The fixed IPv6 header of `data`. -/
def ipv6Header (data : List UInt8) : Except Fault Header := do
  if data.length < 40 then .error .malformed
  else
    let total := 40 + (← be16 data 4).toNat
    if data.length < total then .error .malformed
    else
      let data := data.take total
      let source := IpAddr.ofBytes16 (← sliceIndex data 8 24)
      let destination := IpAddr.ofBytes16 (← sliceIndex data 24 40)
      return ⟨source, destination, ← byteIndex data 6, 40, .whole, data⟩

/-- One step of the extension-header walk: `none` where the walk breaks, else the
length of the header at `offset` and the fragment seen so far. -/
def extHeader (h : Header) : Except Fault (Option (Nat × Fragment)) := do
  if h.proto = 0 ∨ h.proto = 43 ∨ h.proto = 60 then
    return some (((← byteAt h.data (h.offset + 1)).toNat + 1) * 8, h.fragment)
  else if h.proto = 51 then
    return some (((← byteAt h.data (h.offset + 1)).toNat + 2) * 4, h.fragment)
  else if h.proto = 44 then
    let field ← be16 h.data (h.offset + 2)
    let ident := IpAddr.bytesValue (← sliceAt h.data (h.offset + 4) (h.offset + 8))
    let key : FragmentKey := ⟨h.source, h.destination, ← byteAt h.data h.offset, ident⟩
    let fragment :=
      if field >>> 3 ≠ 0 then .later key
      else if field &&& 1 ≠ 0 then .first key
      else h.fragment
    return some (8, fragment)
  else return none

/-- The extension-header walk, with `budget` headers left. -/
def walkExtHeaders (budget : Nat) (h : Header) : Except Fault Header := do
  match ← extHeader h with
  | none => return h
  | some (headerLen, fragment) =>
    match budget with
    | 0 => .error .malformed
    | budget + 1 =>
      let proto ← byteAt h.data h.offset
      let next := { h with proto := proto, offset := h.offset + headerLen, fragment := fragment }
      if h.data.length < next.offset then .error .malformed
      else if fragment.isLater then return next
      else walkExtHeaders budget next

/-! ## Transport headers -/

/-- An ICMP header of either family. -/
def icmp (data : List UInt8) (offset : Nat) : Except Fault L4 := do
  let _ ← be16 data (offset + 6)
  return .icmp (← byteIndex data offset) (← be16 data (offset + 4)) (offset + 8)

theorem icmp_ne_ports {data : List UInt8} {offset : Nat} {source destination : UInt16}
    {flags : UInt8} : icmp data offset ≠ .ok (.ports source destination flags) := by
  intro h
  obtain ⟨_, -, h⟩ := bind_ok_iff.mp h
  obtain ⟨_, -, h⟩ := bind_ok_iff.mp h
  obtain ⟨_, -, h⟩ := bind_ok_iff.mp h
  cases h

/-- The transport header at the end of the walk.  `embedded` relaxes TCP to its
ports, which is all an ICMP error is guaranteed to quote. -/
def parseL4 (h : Header) (embedded : Bool) : Except Fault L4 := do
  if h.fragment.isLater then return .other
  else if h.proto = TCP then
    if !embedded && h.data.length < h.offset + 20 then .error .malformed
    else
      let source ← be16 h.data h.offset
      let destination ← be16 h.data (h.offset + 2)
      return .ports source destination (h.data[h.offset + 13]?.getD 0)
  else if h.proto = UDP then
    let _ ← be16 h.data (h.offset + 6)
    let source ← be16 h.data h.offset
    let destination ← be16 h.data (h.offset + 2)
    return .ports source destination 0
  else if h.proto = ICMP ∧ h.source.isIpv4 then icmp h.data h.offset
  else if h.proto = ICMPV6 ∧ h.source.isIpv6 then icmp h.data h.offset
  else return .other

/-- The network header, with extension headers walked. -/
def parseHeader (data : List UInt8) : Except Fault Header := do
  let version := (← byteAt data 0) >>> 4
  if version = 4 then ipv4Header data
  else if version = 6 then walkExtHeaders MAX_EXT_HEADERS (← ipv6Header data)
  else .error .malformed

def parsePacket (data : List UInt8) (embedded : Bool) : Except Fault Packet := do
  let h ← parseHeader data
  let l4 ← parseL4 h embedded
  return ⟨h.source, h.destination, h.proto, l4, h.fragment, h.data.length⟩

def parse (data : List UInt8) : Except Fault Packet := parsePacket data false

/-- Overwrites two bytes with a number in network order. -/
def setBe16 (data : List UInt8) (i n : Nat) : List UInt8 :=
  (data.set i (UInt8.ofNat (n / 256))).set (i + 1) (UInt8.ofNat n)

/-- The truncated packet inside an ICMP error: its length field is rewritten to what
is there, and an IPv4 fragment field is cleared. -/
def parseEmbedded (data : List UInt8) : Except Fault Packet := do
  let version := (← byteAt data 0) >>> 4
  let copy ←
    if version = 4 then
      if 65535 < data.length ∨ data.length < 8 then .error .malformed
      else .ok (setBe16 (setBe16 data 2 data.length) 6 0)
    else if version = 6 then
      if data.length < 40 ∨ 65535 < data.length - 40 then .error .malformed
      else .ok (setBe16 data 4 (data.length - 40))
    else .error .malformed
  let packet ← parsePacket copy true
  return { packet with fragment := .whole }

/-! ## ICMP kinds -/

def isEchoRequest (proto kind : UInt8) : Bool :=
  (proto == ICMP && kind == 8) || (proto == ICMPV6 && kind == 128)

def isEcho (proto kind : UInt8) : Bool :=
  isEchoRequest proto kind || (proto == ICMP && kind == 0) || (proto == ICMPV6 && kind == 129)

/-- An ICMP error, which quotes the packet it is about. -/
def isError (proto kind : UInt8) : Bool :=
  (proto == ICMP && (kind == 3 || kind == 11 || kind == 12)) ||
    (proto == ICMPV6 && (1 ≤ kind && kind ≤ 4))

/-- The port a new flow is decided on: the destination port, or 0 without ports. -/
def Packet.servicePort (p : Packet) : UInt16 :=
  match p.l4 with
  | .ports _ destination _ => destination
  | _ => 0

/-! ## Flow keys -/

/-- A flow, seen from this device. -/
structure FlowKey where
  proto : UInt8
  «local» : IpAddr
  remote : IpAddr
  localPort : UInt16
  remotePort : UInt16
  deriving DecidableEq

/-- Flow key of a packet arriving from a peer; none for packets that never create
state (ICMP other than echo). -/
def inboundKey (p : Packet) : Option FlowKey :=
  match p.l4 with
  | .ports source destination _ => some ⟨p.proto, p.destination, p.source, destination, source⟩
  | .icmp kind ident _ =>
    if isEcho p.proto kind then some ⟨p.proto, p.destination, p.source, ident, 0⟩ else none
  | .other => some ⟨p.proto, p.destination, p.source, 0, 0⟩

def outboundKey (p : Packet) : Option FlowKey :=
  match p.l4 with
  | .ports source destination _ => some ⟨p.proto, p.source, p.destination, source, destination⟩
  | .icmp kind ident _ =>
    if isEcho p.proto kind then some ⟨p.proto, p.source, p.destination, ident, 0⟩ else none
  | .other => some ⟨p.proto, p.source, p.destination, 0, 0⟩

/-! ## What parsing guarantees -/

/-- A packet that is not a later fragment has ports exactly under TCP and UDP. -/
theorem parseL4_ports {h : Header} {embedded : Bool} {l4 : L4}
    (hparse : parseL4 h embedded = .ok l4)
    (hlater : h.fragment.isLater = false) :
    (h.proto = TCP ∨ h.proto = UDP) ↔ ∃ source destination flags,
      l4 = .ports source destination flags := by
  unfold parseL4 at hparse
  rw [hlater, if_neg Bool.false_ne_true] at hparse
  split at hparse
  · next htcp =>
    split at hparse
    · cases hparse
    · obtain ⟨source, -, hparse⟩ := bind_ok_iff.mp hparse
      obtain ⟨destination, -, hparse⟩ := bind_ok_iff.mp hparse
      cases hparse
      exact ⟨fun _ => ⟨_, _, _, rfl⟩, fun _ => .inl htcp⟩
  · next htcp =>
    split at hparse
    · next hudp =>
      obtain ⟨_, -, hparse⟩ := bind_ok_iff.mp hparse
      obtain ⟨source, -, hparse⟩ := bind_ok_iff.mp hparse
      obtain ⟨destination, -, hparse⟩ := bind_ok_iff.mp hparse
      cases hparse
      exact ⟨fun _ => ⟨_, _, _, rfl⟩, fun _ => .inr hudp⟩
    · next hudp =>
      -- Neither protocol: what is left builds an ICMP header or nothing.
      refine ⟨fun h => absurd h (not_or.mpr ⟨htcp, hudp⟩), ?_⟩
      rintro ⟨source, destination, flags, rfl⟩
      exfalso
      split at hparse
      · exact icmp_ne_ports hparse
      · split at hparse
        · exact icmp_ne_ports hparse
        · cases hparse

theorem parse_ports {data : List UInt8} {packet : Packet} (hparse : parse data = .ok packet)
    (hlater : packet.fragment.isLater = false) :
    (packet.proto = TCP ∨ packet.proto = UDP) ↔ ∃ source destination flags,
      packet.l4 = .ports source destination flags := by
  obtain ⟨h, -, hparse⟩ := bind_ok_iff.mp hparse
  obtain ⟨l4, hl4, hparse⟩ := bind_ok_iff.mp hparse
  cases hparse
  exact parseL4_ports hl4 hlater

end BlakTail.Dataplane
