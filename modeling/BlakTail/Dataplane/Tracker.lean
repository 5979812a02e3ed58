import BlakTail.Dataplane.FlowEvents
import BlakTail.Dataplane.Packet

/-!
# Connection Tracking

The `Filter` of the userspace dataplanes as a state machine: the table of flows,
its eviction order, remembered fragments, traffic counters and flow events.

Every method is a function from the filter before to the filter after.  Time is in
whole seconds since the filter was made; counters saturate at `u64::MAX`.
-/

namespace BlakTail.Dataplane

open Foundation

/-! ## Bounds and timeouts -/

/-- Connection-tracking table bound. -/
def MAX_STATES : Nat := 16384
/-- Distinct traffic counter keys kept between reports. -/
def MAX_TRAFFIC_KEYS : Nat := 1024
def MAX_FRAGMENTS : Nat := 256
/-- Distinct dropped connections remembered between event uploads. -/
def MAX_PENDING_DROPS : Nat := 512
/-- Ports at or above this are counted as one class. -/
def DYNAMIC_PORTS : UInt16 := 49152

def TCP_NEW_SECS : Nat := 120
def TCP_ESTABLISHED_SECS : Nat := 7200
def TCP_FIN_SECS : Nat := 120
def TCP_RST_SECS : Nat := 10
def UDP_NEW_SECS : Nat := 60
def UDP_REPLIED_SECS : Nat := 180
def ICMP_SECS : Nat := 30
def OTHER_SECS : Nat := 600
def FRAGMENT_SECS : Nat := 30
def PURGE_EVERY_SECS : Nat := 10

/-- `u64::saturating_add`. -/
def satAdd (a b : Nat) : Nat := min (a + b) (2 ^ 64 - 1)

/-! ## Records -/

/-- Per-flow event bookkeeping. -/
structure FlowStats where
  id : Nat
  lastSeen : Nat
  rxBytes : Nat := 0
  txBytes : Nat := 0
  rxPackets : Nat := 0
  txPackets : Nat := 0

structure State where
  initiator : Direction
  peer : Option String
  servicePort : UInt16
  replied : Bool
  expires : Nat
  generation : Nat := 0
  flow : Option FlowStats := none

/-- What repeats of one dropped packet share. -/
structure DropKey where
  source : IpAddr
  destination : IpAddr
  proto : UInt8
  sourcePort : UInt16
  destinationPort : UInt16
  deriving DecidableEq

structure TrafficKey where
  peer : Option String
  direction : Direction
  proto : UInt8
  port : UInt16
  allowed : Bool
  deriving DecidableEq

/-- Bytes and packets of one aggregate. -/
structure Counter where
  bytes : Nat := 0
  packets : Nat := 0

structure FragmentState where
  allow : Bool
  counter : Option TrafficKey
  expires : Nat

structure Filter where
  policy : Policy := Policy.allowAll
  states : Table FlowKey State := ∅
  order : List (FlowKey × Nat) := []
  generation : Nat := 0
  fragments : Table FragmentKey FragmentState := ∅
  traffic : Option (Table TrafficKey Counter) := none
  overflow : Nat := 0
  lastPurge : Nat := 0
  epochUnix : Int
  events : Option Buffer := none
  drops : Table DropKey FlowEvent := ∅
  dropOverflow : Nat := 0
  nextFlow : Nat := 0
  instanceId : Nat
  bucketStarted : Int := 0
  eventsSince : Int := 0

/-- `Filter::new`, for the wall clock and instance number it reads. -/
def Filter.new (epochUnix : Int) (instanceId : Nat) : Filter :=
  { epochUnix := epochUnix, instanceId := instanceId }

/-- Fold dynamic ports into one class. -/
def portClass (port : UInt16) : UInt16 := min port DYNAMIC_PORTS

/-- Lifetime of a flow that has seen one packet. -/
def initialTimeout (proto : UInt8) : Nat :=
  if proto = TCP then TCP_NEW_SECS
  else if proto = UDP then UDP_NEW_SECS
  else if proto = ICMP ∨ proto = ICMPV6 then ICMP_SECS
  else OTHER_SECS

/-- Lifetime of a flow after one more packet. -/
def touchTimeout (packet : Packet) (replied : Bool) : Nat :=
  if packet.proto = TCP then
    match packet.l4 with
    | .ports _ _ flags =>
      if flags &&& 0x04 ≠ 0 then TCP_RST_SECS
      else if flags &&& 0x01 ≠ 0 then TCP_FIN_SECS
      else if replied then TCP_ESTABLISHED_SECS
      else TCP_NEW_SECS
    | _ => if replied then TCP_ESTABLISHED_SECS else TCP_NEW_SECS
  else if packet.proto = UDP then
    if replied then UDP_REPLIED_SECS else UDP_NEW_SECS
  else if packet.proto = ICMP ∨ packet.proto = ICMPV6 then ICMP_SECS
  else OTHER_SECS

/-- The aggregate a packet of this flow is counted under. -/
def State.counterKey (state : State) (proto : UInt8) : TrafficKey :=
  ⟨state.peer, state.initiator, proto, portClass state.servicePort, true⟩

/-- One more packet on a live flow. -/
def State.refresh (state : State) (packet : Packet) (via : Direction) (now : Nat) : State :=
  let flow := state.flow.map fun stats =>
    if via = .inbound then
      { stats with
        lastSeen := now
        rxBytes := satAdd stats.rxBytes packet.len
        rxPackets := satAdd stats.rxPackets 1 }
    else
      { stats with
        lastSeen := now
        txBytes := satAdd stats.txBytes packet.len
        txPackets := satAdd stats.txPackets 1 }
  let replied := state.replied || via ≠ state.initiator
  { state with flow := flow, replied := replied, expires := now + touchTimeout packet replied }

namespace Filter

/-! ## Events -/

variable (f : Filter)

/-- Unix time of a filter time. -/
def unix (now : Nat) : Int := f.epochUnix + now

def flowId (id : Nat) : String :=
  "u" ++ Text.hexPadded 8 f.instanceId ++ "-" ++ Text.hex id

/-- Start or end event of a tracked flow. -/
def flowEvent (key : FlowKey) (state : State) (kind : Kind) (time : Int) : Option FlowEvent :=
  state.flow.map fun stats =>
    let near := (key.local, key.localPort)
    let far := (key.remote, key.remotePort)
    let (source, destination) := match state.initiator with
      | .inbound => (far, near)
      | .outbound => (near, far)
    let base := event (f.flowId stats.id) kind time state.initiator key.proto source
      destination none
    let base := { base with peerId := state.peer }
    if kind = .stop then
      { base with
        rxBytes := stats.rxBytes
        txBytes := stats.txBytes
        rxPackets := stats.rxPackets
        txPackets := stats.txPackets }
    else base

def emit (e : Option FlowEvent) : Filter :=
  match f.events, e with
  | some buffer, some e => { f with events := some (buffer.push e) }
  | _, _ => f

/-- Emit the end event of a flow that is going away. -/
def ended (key : FlowKey) (state : State) : Filter :=
  match f.events with
  | none => f
  | some _ =>
    let time := f.unix ((state.flow.map FlowStats.lastSeen).getD 0)
    f.emit (f.flowEvent key state .stop time)

/-- Record a dropped inbound packet, merging repeats. -/
def dropped (packet : Packet) (peer : Option String) (hint : String) (now : Nat) : Filter :=
  match f.events with
  | none => f
  | some _ =>
    let (sourcePort, destinationPort, icmp) : UInt16 × UInt16 × Option UInt8 := match packet.l4 with
      | .ports source destination _ => (source, destination, none)
      | .icmp kind _ _ => (0, 0, some kind)
      | .other => (0, 0, none)
    let key : DropKey :=
      ⟨packet.source, packet.destination, packet.proto, sourcePort, destinationPort⟩
    match f.drops.lookup key with
    | some e =>
      let e := { e with
        rxBytes := satAdd e.rxBytes packet.len
        rxPackets := satAdd e.rxPackets 1 }
      { f with drops := f.drops.insert key e }
    | none =>
      if MAX_PENDING_DROPS ≤ f.drops.size then { f with dropOverflow := f.dropOverflow + 1 }
      else
        let base := event (f.flowId (f.nextFlow + 1)) .drop (f.unix now) .inbound packet.proto
          (packet.source, sourcePort) (packet.destination, destinationPort)
          (icmp.map fun kind => (kind, 0))
        let e := { base with
          peerId := peer
          ruleHint := some hint
          rxBytes := packet.len
          rxPackets := 1 }
        { f with nextFlow := f.nextFlow + 1, drops := f.drops.insert key e }

/-- Take the events since the last call, at most one upload batch. -/
def takeEvents : Filter × List FlowEvent :=
  match f.events with
  | none => (f, [])
  | some buffer =>
    let buffer := f.drops.entries.foldl (fun b e => b.push e.2) buffer
    let (buffer, taken) := buffer.take MAX_BATCH
    ({ f with events := some buffer, drops := ∅ }, taken)

/-- Put taken events back. -/
def restoreEvents (events : List FlowEvent) : Filter :=
  match f.events with
  | none => f
  | some buffer =>
    let emptied := { buffer with events := [] }
    { f with events := some ((events ++ buffer.events).foldl Buffer.push emptied) }

/-! ## Counters -/

/-- Add one packet to a traffic aggregate. -/
def count (key : TrafficKey) (len : Nat) : Filter :=
  match f.traffic with
  | none => f
  | some traffic =>
    if (traffic.lookup key).isNone && MAX_TRAFFIC_KEYS ≤ traffic.size then
      { f with overflow := f.overflow + 1 }
    else
      let counter := (traffic.lookup key).getD {}
      let counter : Counter := ⟨satAdd counter.bytes len, satAdd counter.packets 1⟩
      { f with traffic := some (traffic.insert key counter) }

/-- Count a packet that did not parse. -/
def countUnattributed (data : List UInt8) : Filter :=
  f.count ⟨none, .inbound, 0, 0, false⟩ data.length

def takeTraffic : Filter :=
  { f with traffic := f.traffic.map fun _ => ∅, overflow := 0 }

/-! ## The flow table -/

/-- The eviction order without pairs whose flow is gone or was replaced. -/
def liveOrder : List (FlowKey × Nat) :=
  f.order.filter fun (key, generation) =>
    match f.states.lookup key with
    | some state => state.generation == generation
    | none => false

/-- Drop flows, with an end event for each that carries bookkeeping. -/
def retainStates (keep : FlowKey → State → Bool) : Filter :=
  let gone := f.states.entries.filter fun e => !keep e.1 e.2 && e.2.flow.isSome
  gone.foldl (fun f e => f.ended e.1 e.2) { f with states := f.states.retain keep }

/-- Drop expired flows and fragments. -/
def purge (now : Nat) : Filter :=
  let f := { f with lastPurge := now }.retainStates fun _ state => now < state.expires
  let f := { f with fragments := f.fragments.retain fun _ entry => now < entry.expires }
  if f.states.size * 2 + 64 < f.order.length then { f with order := f.liveOrder } else f

/-- Purge at most every `PURGE_EVERY_SECS`. -/
def maybePurge (now : Nat) : Filter :=
  if f.lastPurge + PURGE_EVERY_SECS ≤ now then f.purge now else f

/-- Evict in first-in order until there is room; `pending` is the order still to try. -/
def evict (f : Filter) : List (FlowKey × Nat) → Filter
  | [] => { f with order := [] }
  | (oldest, generation) :: rest =>
    if f.states.size < MAX_STATES then { f with order := (oldest, generation) :: rest }
    else
      match f.states.lookup oldest with
      | some state =>
        if state.generation = generation then
          evict ({ f with states := f.states.erase oldest }.ended oldest state) rest
        else evict f rest
      | none => evict f rest

/-- At most one full sweep a second when the table is full. -/
def sweepFull (now : Nat) : Filter :=
  if MAX_STATES ≤ f.states.size ∧ f.lastPurge < now then f.purge now else f

/-- Room for one more flow: a sweep, then eviction. -/
def makeRoom (now : Nat) : Filter :=
  let f := f.sweepFull now
  if MAX_STATES ≤ f.states.size then f.evict f.order else f

/-- Number a new flow and, while events are on, start its bookkeeping. -/
def startFlow (key : FlowKey) (state : State) (now : Nat) : Filter × State :=
  let state := { state with generation := f.generation + 1 }
  let f := { f with generation := f.generation + 1 }
  match f.events with
  | none => (f, state)
  | some _ =>
    let state := { state with flow := some { id := f.nextFlow + 1, lastSeen := now } }
    let f := { f with nextFlow := f.nextFlow + 1 }
    (f.emit (f.flowEvent key state .start (f.unix now)), state)

/-- Store a numbered flow and queue it for eviction. -/
def enter (key : FlowKey) (state : State) : Filter :=
  let f := { f with
    order := f.order ++ [(key, f.generation)]
    states := f.states.insert key state }
  if MAX_STATES * 2 < f.order.length then { f with order := f.liveOrder } else f

/-- Enter a new flow under `key`. -/
def insert (key : FlowKey) (state : State) (now : Nat) : Filter :=
  let (f, state) := (f.makeRoom now).startFlow key state now
  f.enter key state

/-- Refresh a live flow for a packet travelling `via`, counting it; false when no live
flow exists. -/
def touch (key : FlowKey) (packet : Packet) (via : Direction) (now : Nat) : Filter × Bool :=
  match f.states.lookup key with
  | none => (f, false)
  | some state =>
    if state.expires ≤ now then
      ({ f with states := f.states.erase key }.ended key state, false)
    else
      let state := state.refresh packet via now
      let f := { f with states := f.states.insert key state }
      (f.count (state.counterKey packet.proto) packet.len, true)

/-- The flow whose own packet an ICMP error quotes. -/
def related (data : List UInt8) (body now : Nat) : Option State :=
  if data.length < body then none
  else match parseEmbedded (data.drop body) with
    | .error _ => none
    | .ok inner =>
      match outboundKey inner with
      | none => none
      | some key => (f.states.lookup key).filter fun state => now < state.expires

/-! ## Fragments -/

/-- The verdict on a later fragment: that of its first fragment. -/
def laterFragment (key : FragmentKey) (len now : Nat) (source : IpAddr) : Filter × Bool :=
  match (f.fragments.lookup key).filter fun entry => now < entry.expires with
  | some entry =>
    match entry.counter with
    | some counter => (f.count counter len, entry.allow)
    | none => (f, entry.allow)
  | none => (f.count ⟨f.policy.peerFor source, .inbound, key.proto, 0, false⟩ len, false)

/-- The remembered fragments, without the expired ones once they are full. -/
def freshFragments (now : Nat) : Table FragmentKey FragmentState :=
  if MAX_FRAGMENTS ≤ f.fragments.size then f.fragments.retain fun _ entry => now < entry.expires
  else f.fragments

/-- Remember the verdict on a first fragment.  While the table stays full, later
fragments of the packet are dropped. -/
def rememberFragment (f : Filter) (packet : Packet) (allow : Bool) (counter : Option TrafficKey)
    (now : Nat) : Filter :=
  match packet.fragment with
  | .first key =>
    let fragments := f.freshFragments now
    if MAX_FRAGMENTS ≤ fragments.size then { f with fragments := fragments }
    else { f with fragments := fragments.insert key ⟨allow, counter, now + FRAGMENT_SECS⟩ }
  | _ => f

/-! ## Packets -/

/-- Track the flow an admitted packet opens, if it has a key. -/
def openInbound (packet : Packet) (peer : Option String) (now : Nat) : Filter :=
  match inboundKey packet with
  | some key =>
    let f := f.insert key
      { initiator := .inbound
        peer := peer
        servicePort := packet.servicePort
        replied := false
        expires := now + initialTimeout packet.proto } now
    (f.touch key packet .inbound now).1
  | none => f

/-- A packet of no known flow, decided by the policy. -/
def inboundNew (packet : Packet) (now : Nat) : Filter × Bool :=
  let port := packet.servicePort
  let (allow, peer, hint) := f.policy.decideWithHint packet.source packet.proto port
  let f := if allow then f.openInbound packet peer now else f.dropped packet peer hint now
  let counter : TrafficKey := ⟨peer, .inbound, packet.proto, portClass port, allow⟩
  -- A tracked packet was counted when its flow was touched.
  let f := if (inboundKey packet).isNone || !allow then f.count counter packet.len else f
  (f.rememberFragment packet allow (some counter) now, allow)

/-- The flow an ICMP error belongs to: the one whose packet it quotes. -/
def quoted (data : List UInt8) (packet : Packet) (now : Nat) : Option State :=
  match packet.l4 with
  | .icmp kind _ body =>
    if isError packet.proto kind then f.related (data.take packet.len) body now else none
  | _ => none

/-- A packet of no live flow of its own. -/
def inboundUntracked (data : List UInt8) (packet : Packet) (now : Nat) : Filter × Bool :=
  match f.quoted data packet now with
  | some state =>
    let counter := state.counterKey packet.proto
    ((f.count counter packet.len).rememberFragment packet true (some counter) now, true)
  | none => f.inboundNew packet now

/-- A parsed packet that is not a later fragment. -/
def inboundPacket (data : List UInt8) (packet : Packet) (now : Nat) : Filter × Bool :=
  match inboundKey packet with
  | some key =>
    let (f, live) := f.touch key packet .inbound now
    if live then (f, true) else f.inboundUntracked data packet now
  | none => f.inboundUntracked data packet now

/-- Decide one decrypted packet before it reaches the tunnel device. -/
def inbound (data : List UInt8) (now : Nat) : Filter × Bool :=
  let f := f.maybePurge now
  match parse data with
  | .error _ => (f.countUnattributed data, false)
  | .ok packet =>
    match packet.fragment with
    | .later key => f.laterFragment key packet.len now packet.source
    | _ => f.inboundPacket data packet now

/-- Track the flow a packet of this device opens. -/
def openOutbound (key : FlowKey) (packet : Packet) (now : Nat) : Filter :=
  let f := f.insert key
    { initiator := .outbound
      peer := f.policy.peerFor packet.destination
      servicePort := packet.servicePort
      replied := false
      expires := now + initialTimeout packet.proto } now
  (f.touch key packet .outbound now).1

/-- A packet this device sends under a flow key. -/
def outboundPacket (key : FlowKey) (packet : Packet) (now : Nat) : Filter :=
  let (f, live) := f.touch key packet .outbound now
  let f := if live then f else f.openOutbound key packet now
  let counter := (f.states.lookup key).map fun state => state.counterKey packet.proto
  f.rememberFragment packet true counter now

/-- Record one packet this device sends into the tunnel. -/
def outbound (data : List UInt8) (now : Nat) : Filter :=
  let f := f.maybePurge now
  match parse data with
  | .error _ => f
  | .ok packet =>
    match packet.fragment with
    | .later key =>
      match (f.fragments.lookup key).filter (fun entry => now < entry.expires) with
      | some ⟨_, some counter, _⟩ => f.count counter packet.len
      | _ => f
    | _ =>
      match outboundKey packet with
      | some key => f.outboundPacket key packet now
      | none =>
        let counter : TrafficKey :=
          ⟨f.policy.peerFor packet.destination, .outbound, packet.proto, 0, true⟩
        (f.count counter packet.len).rememberFragment packet true (some counter) now

/-! ## Control -/

/-- Install a new policy: outbound flows keep their state, inbound-started flows
survive only if the new policy still admits them. -/
def setPolicy (policy : Policy) : Filter :=
  let f := { f with policy := policy }.retainStates fun key state =>
    state.initiator == Direction.outbound || policy.allows key.remote key.proto state.servicePort
  { f with fragments := ∅ }

/-- Turn traffic counting on or off; `unixNow` is the wall clock. -/
def setTraffic (enabled : Bool) (unixNow : Int) : Filter :=
  if !enabled then
    { f with
      traffic := none
      overflow := 0
      events := none
      drops := ∅
      dropOverflow := 0
      states := f.states.mapValues fun state => { state with flow := none } }
  else if f.traffic.isNone then
    { f with
      traffic := some ∅
      events := some {}
      bucketStarted := unixNow
      eventsSince := unixNow }
  else f

end Filter

/-! ## Calls -/

/-- The calls a host makes on a filter. -/
inductive Call where
  | inbound (data : List UInt8) (now : Nat)
  | outbound (data : List UInt8) (now : Nat)
  | setPolicy (policy : Policy)
  | setTraffic (enabled : Bool) (unixNow : Int)
  | takeTraffic
  | takeEvents
  | restoreEvents (events : List FlowEvent)

def Filter.step (f : Filter) : Call → Filter
  | .inbound data now => (f.inbound data now).1
  | .outbound data now => f.outbound data now
  | .setPolicy policy => f.setPolicy policy
  | .setTraffic enabled unixNow => f.setTraffic enabled unixNow
  | .takeTraffic => f.takeTraffic
  | .takeEvents => f.takeEvents.1
  | .restoreEvents events => f.restoreEvents events

end BlakTail.Dataplane
