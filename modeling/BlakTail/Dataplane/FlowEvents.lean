import BlakTail.Foundation.Address

/-!
# Flow Events

The event record and the bounded queue of `flow_events.rs`, which the filter fills
while traffic diagnostics are on.  Building and sampling uploads is not modelled.
-/

namespace BlakTail.Dataplane

open Foundation

/-- Events held between uploads; older ones are dropped and counted. -/
def MAX_BUFFERED : Nat := 4096

def MAX_BATCH : Nat := 1000

inductive Kind where
  | start
  | stop
  | drop
  deriving DecidableEq

/-- Which side started a flow. -/
inductive Direction where
  | inbound
  | outbound
  deriving DecidableEq

/-- One event in the coordinator's wire shape. -/
structure FlowEvent where
  flowId : String
  kind : Kind
  time : Int
  direction : Direction
  protocol : String
  protocolNumber : Option UInt8
  icmpType : Option UInt8
  icmpCode : Option UInt8
  srcIp : String
  srcPort : UInt16
  dstIp : String
  dstPort : UInt16
  peerId : Option String := none
  connectionType : String := "p2p"
  rxBytes : Nat := 0
  txBytes : Nat := 0
  rxPackets : Nat := 0
  txPackets : Nat := 0
  ruleHint : Option String := none
  aggregated : Bool := false

/-- Protocol label and number from an IP protocol number. -/
def protocol (number : UInt8) : String × Option UInt8 :=
  if number = 6 then ("tcp", none)
  else if number = 17 then ("udp", none)
  else if number = 1 then ("icmp", none)
  else if number = 58 then ("icmpv6", none)
  else ("other", some number)

/-- Builds an event from a connection's endpoints: ports only for TCP and UDP, and an
ICMP type (an echo request unless given) only for ICMP. -/
def event (flowId : String) (kind : Kind) (time : Int) (direction : Direction) (proto : UInt8)
    (source destination : IpAddr × UInt16) (icmp : Option (UInt8 × UInt8)) : FlowEvent :=
  let (label, number) := protocol proto
  let ports := label == "tcp" || label == "udp"
  let icmp :=
    if label == "icmp" then some (icmp.getD (8, 0))
    else if label == "icmpv6" then some (icmp.getD (128, 0))
    else none
  { flowId := flowId
    kind := kind
    time := time
    direction := direction
    protocol := label
    protocolNumber := number
    icmpType := icmp.map (·.1)
    icmpCode := icmp.map (·.2)
    srcIp := source.1.toText
    srcPort := if ports then source.2 else 0
    dstIp := destination.1.toText
    dstPort := if ports then destination.2 else 0 }

/-- Bounded event queue between uploads. -/
structure Buffer where
  events : List FlowEvent := []
  overflow : Nat := 0

/-- Append an event, dropping the oldest one when the queue is full. -/
def Buffer.push (b : Buffer) (event : FlowEvent) : Buffer :=
  if MAX_BUFFERED ≤ b.events.length then
    { events := b.events.tail ++ [event], overflow := b.overflow + 1 }
  else { b with events := b.events ++ [event] }

/-- Take up to `max` events, oldest first. -/
def Buffer.take (b : Buffer) (max : Nat) : Buffer × List FlowEvent :=
  ({ b with events := b.events.drop max }, b.events.take max)

end BlakTail.Dataplane
