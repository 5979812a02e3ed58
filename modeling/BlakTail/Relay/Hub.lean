import BlakTail.Relay.Frame
import BlakTail.Relay.Limiter

/-!
# The Relay's Hub

One table of registrations for UDP and WebSocket clients.  A client registers with a capability
that the coordinator minted for its node id; whoever sends from the registered address speaks for
that id.
-/

namespace BlakTail.Relay

open Foundation
open Foundation.Bytes

/-- Where a registered client is reached: a UDP source address, or one WebSocket connection. -/
inductive PeerAddr where
  | udp (address : SocketAddr)
  | stream (id : Nat)
  deriving DecidableEq

structure Client where
  addr : PeerAddr
  expiresAt : Nat
  lastSeen : Nat
  deriving DecidableEq

structure HubConfig where
  authSecret : List UInt8
  limits : Limits

/-- What the two clocks read. -/
structure Clock where
  instant : Nat
  unix : Nat
  deriving DecidableEq

structure Hub where
  config : HubConfig
  clients : Table NodeId Client := ∅
  sourceBuckets : Table IpAddr Bucket := ∅
  nodeBuckets : Table NodeId Bucket := ∅
  streams : Table Nat SocketAddr := ∅

abbrev Packet := PeerAddr × List UInt8

def saturatingMul (m n : Nat) : Nat := min (m * n) (2 ^ 32 - 1)

def touch (clients : Table NodeId Client) (id : NodeId) (instant : Nat) : Table NodeId Client :=
  clients.mapEntries fun known client =>
    if known = id then { client with lastSeen := instant } else client

-- HMAC-SHA256 of a node id and an expiry under a secret
variable (mac : List UInt8 → NodeId → Nat → Token)

def verifyToken (authSecret : List UInt8) (id : NodeId) (expiresAt : Nat) (token : List UInt8) :
    Bool :=
  token.length = TOKEN_LEN && !authSecret.isEmpty && token = (mac authSecret id expiresAt).val

namespace Hub

variable (hub : Hub)

def remote : PeerAddr → Option SocketAddr
  | .udp address => some address
  | .stream id => hub.streams.lookup id

/-- The checks before a frame is read: its source is known and within the rate, and it has a
header. -/
def admitFrame (data : List UInt8) (source : PeerAddr) (clock : Clock) :
    Hub × Option (SocketAddr × NodeId) :=
  match hub.remote source with
  | none => (hub, none)
  | some sourceAddr =>
    let limits := hub.config.limits
    let (sourceBuckets, admitted) := admitKey hub.sourceBuckets sourceAddr.ip
      (saturatingMul limits.ratePerSec SOURCE_RATE_MULTIPLIER)
      (saturatingMul limits.rateBurst SOURCE_RATE_MULTIPLIER) clock.instant
    let hub := { hub with sourceBuckets := sourceBuckets }
    if admitted then (hub, (frameId data).map fun id => (sourceAddr, id)) else (hub, none)

def admitNode (id : NodeId) (instant : Nat) : Hub × Bool :=
  let limits := hub.config.limits
  let (nodeBuckets, admitted) :=
    admitKey hub.nodeBuckets id limits.ratePerSec limits.rateBurst instant
  ({ hub with nodeBuckets := nodeBuckets }, admitted)

/-- The registration a REGISTER frame asks for, if its token is valid and live. -/
def registration (data : List UInt8) (source : PeerAddr) (id : NodeId) (clock : Clock) :
    Option Client :=
  if data.length ≠ REGISTER_FRAME then none
  else
    let expiresAt := ofBe ((data.drop HEADER).take EXPIRY_LEN)
    let token := data.drop (HEADER + EXPIRY_LEN)
    if verifyToken mac hub.config.authSecret id expiresAt token = false then none
    else if expiresAt ≤ clock.unix then none
    else some ⟨source, expiresAt, clock.instant⟩

/-- One address represents one node: a registration replaces what is registered there. -/
def register (data : List UInt8) (source : PeerAddr) (id : NodeId) (clock : Clock) : Hub :=
  match hub.registration mac data source id clock with
  | none => hub
  | some client =>
    let others := hub.clients.retain fun known client => known = id || client.addr ≠ source
    { hub with clients := others.insert id client }

def senderAt (source : PeerAddr) : Option NodeId :=
  (hub.clients.entries.find? fun entry => entry.2.addr = source).map Sigma.fst

/-- Delivers the payload of a SEND frame from a live sender. -/
def forward (data : List UInt8) (sourceId id : NodeId) (clock : Clock) : Hub × Option Packet :=
  match hub.clients.lookup id with
  | none => (hub, none)
  | some destination =>
    if destination.expiresAt ≤ clock.unix then
      ({ hub with clients := hub.clients.erase id }, none)
    else (hub, some (destination.addr, forwardedFrame sourceId (data.drop HEADER)))

def send (data : List UInt8) (source : PeerAddr) (id : NodeId) (clock : Clock) :
    Hub × Option Packet :=
  if MAX_SEND_FRAME < data.length then (hub, none)
  else
    match hub.senderAt source with
    | none => (hub, none)
    | some sourceId =>
      if (hub.clients.lookup sourceId).any fun client => client.expiresAt ≤ clock.unix then
        ({ hub with clients := hub.clients.erase sourceId }, none)
      else
        let seen := { hub with clients := touch hub.clients sourceId clock.instant }
        let (hub, admitted) := seen.admitNode sourceId clock.instant
        if admitted then hub.forward data sourceId id clock else (hub, none)

/-- Answers a live registration's PING. -/
def ping (data : List UInt8) (source : PeerAddr) (sourceAddr : SocketAddr) (id : NodeId)
    (clock : Clock) : Hub × Option Packet :=
  if data.length ≠ HEADER then (hub, none)
  else if (hub.clients.lookup id).any fun client =>
      client.addr = source && clock.unix < client.expiresAt then
    let seen := { hub with clients := touch hub.clients id clock.instant }
    let (hub, admitted) := seen.admitNode id clock.instant
    (hub, if admitted then some (source, observedFrame id sourceAddr) else none)
  else (hub, none)

def dispatch (data : List UInt8) (source : PeerAddr) (sourceAddr : SocketAddr) (id : NodeId)
    (clock : Clock) : Hub × Option Packet :=
  if data.head? = some REGISTER then (hub.register mac data source id clock, none)
  else if data.head? = some SEND then hub.send data source id clock
  else if data.head? = some PING then hub.ping data source sourceAddr id clock
  else (hub, none)

/-- Applies one frame from `source`; returns a packet to deliver. -/
def handle (data : List UInt8) (source : PeerAddr) (clock : Clock) : Hub × Option Packet :=
  match hub.admitFrame data source clock with
  | (hub, none) => (hub, none)
  | (hub, some (sourceAddr, id)) => hub.dispatch mac data source sourceAddr id clock

def reap (clock : Clock) : Hub :=
  let idleSecs := hub.config.limits.idleSecs
  { hub with
    clients := hub.clients.retain fun _ client =>
      clock.unix < client.expiresAt && clock.instant - client.lastSeen < secs idleSecs
    sourceBuckets := reapBuckets hub.sourceBuckets idleSecs clock.instant
    nodeBuckets := reapBuckets hub.nodeBuckets idleSecs clock.instant }

end Hub

/-! ## The loop -/

/-- What the relay's loop takes up. -/
inductive HubEvent where
  | received (data : List UInt8) (source : SocketAddr) (clock : Clock)
  | opened (id : Nat) (remote : SocketAddr)
  | frame (id : Nat) (data : List UInt8) (clock : Clock)
  | closed (id : Nat)
  | reap (clock : Clock)

namespace Hub

variable (hub : Hub)

/-- The events of the relay's loop. -/
def step : HubEvent → Hub
  | .received data source clock => (hub.handle mac data (.udp source) clock).1
  | .opened id remote => { hub with streams := hub.streams.insert id remote }
  | .frame id data clock => (hub.handle mac data (.stream id) clock).1
  | .closed id =>
    { hub with
      streams := hub.streams.erase id
      clients := hub.clients.retain fun _ client => client.addr ≠ .stream id }
  | .reap clock => hub.reap clock

/-- The registration a frame makes. -/
def accepts (data : List UInt8) (source : PeerAddr) (clock : Clock) : Option (NodeId × Client) :=
  match hub.admitFrame data source clock with
  | (_, none) => none
  | (hub, some (_, id)) =>
    if data.head? = some REGISTER then
      (hub.registration mac data source id clock).map fun client => (id, client)
    else none

def accepted : HubEvent → Option (NodeId × Client)
  | .received data source clock => hub.accepts mac data (.udp source) clock
  | .frame id data clock => hub.accepts mac data (.stream id) clock
  | .opened _ _ | .closed _ | .reap _ => none

end Hub

variable {mac}

/-! ## What a frame does -/

/-- Every client was one before, at the same address with the same expiry. -/
def Later (clients clients' : Table NodeId Client) : Prop :=
  ∀ id client', clients'.lookup id = some client' → ∃ client, clients.lookup id = some client ∧
    client'.addr = client.addr ∧ client'.expiresAt = client.expiresAt

theorem Later.refl (clients : Table NodeId Client) : Later clients clients :=
  fun _ client h => ⟨client, h, rfl, rfl⟩

theorem Later.of_sub {clients clients' : Table NodeId Client} (h : Table.Sub clients' clients) :
    Later clients clients' :=
  fun id client hclient => ⟨client, h id client hclient, rfl, rfl⟩

theorem Later.trans {first second third : Table NodeId Client} (h : Later first second)
    (h' : Later second third) : Later first third := by
  intro id client hclient
  obtain ⟨client₂, hclient₂, haddr₂, hexpires₂⟩ := h' id client hclient
  obtain ⟨client₁, hclient₁, haddr₁, hexpires₁⟩ := h id client₂ hclient₂
  exact ⟨client₁, hclient₁, haddr₂.trans haddr₁, hexpires₂.trans hexpires₁⟩

theorem later_touch (clients : Table NodeId Client) (id : NodeId) (instant : Nat) :
    Later clients (touch clients id instant) := by
  intro known client hclient
  rw [touch, Table.lookup_mapEntries] at hclient
  obtain ⟨before, hbefore, rfl⟩ := Option.map_eq_some_iff.mp hclient
  refine ⟨before, hbefore, ?_⟩
  split_ifs
  · exact ⟨rfl, rfl⟩
  · exact ⟨rfl, rfl⟩

namespace Hub

variable {hub hub' : Hub} {data : List UInt8} {source : PeerAddr} {clock : Clock} {id : NodeId}
  {client : Client} {packet : Option Packet} {accepted : Option (NodeId × Client)}

/-- The checks before a frame is read count it against the source's rate, and no more. -/
theorem admitFrame_eq (hub : Hub) (data : List UInt8) (source : PeerAddr) (clock : Clock) :
    ∃ buckets, (hub.admitFrame data source clock).1 = { hub with sourceBuckets := buckets } ∧
      ∀ sourceAddr id, (hub.admitFrame data source clock).2 = some (sourceAddr, id) →
        hub.remote source = some sourceAddr ∧ frameId data = some id := by
  unfold admitFrame
  split
  · exact ⟨hub.sourceBuckets, rfl, nofun⟩
  · next sourceAddr hremote =>
    dsimp only
    split_ifs
    · refine ⟨_, rfl, fun addr id h => ?_⟩
      obtain ⟨known, hid, heq⟩ := Option.map_eq_some_iff.mp h
      cases heq
      exact ⟨hremote, hid⟩
    · exact ⟨_, rfl, nofun⟩

/-- What frames leave alone. -/
structure Kept (hub hub' : Hub) : Prop where
  config : hub'.config = hub.config
  streams : hub'.streams = hub.streams

/-- What a frame does once its header is read.  `forwarded` and `observed` are what may be sent. -/
inductive Handles (hub : Hub) (data : List UInt8) (source : PeerAddr) (sourceAddr : SocketAddr)
    (id : NodeId) (clock : Clock) : Hub → Option Packet → Prop where
  | dropped {hub' : Hub} (hkept : Kept hub hub')
      (hclients : Later hub.clients hub'.clients) :
      Handles hub data source sourceAddr id clock hub' none
  | forwarded {hub' : Hub} {sourceId : NodeId} {sender destination : Client}
      (hkept : Kept hub hub') (hclients : Later hub.clients hub'.clients)
      (hsend : data.head? = some SEND)
      (hsender : hub.clients.lookup sourceId = some sender) (haddr : sender.addr = source)
      (hlive : clock.unix < sender.expiresAt)
      (hdestination : hub.clients.lookup id = some destination)
      (hreachable : clock.unix < destination.expiresAt) :
      Handles hub data source sourceAddr id clock hub'
        (some (destination.addr, forwardedFrame sourceId (data.drop HEADER)))
  | observed {hub' : Hub} {client : Client} (hkept : Kept hub hub')
      (hclients : Later hub.clients hub'.clients)
      (hping : data.head? = some PING) (hlength : data.length = HEADER)
      (hclient : hub.clients.lookup id = some client)
      (haddr : client.addr = source) (hlive : clock.unix < client.expiresAt) :
      Handles hub data source sourceAddr id clock hub'
        (some (source, observedFrame id sourceAddr))

theorem senderAt_spec {sourceId : NodeId} (h : hub.senderAt source = some sourceId) :
    ∃ sender, hub.clients.lookup sourceId = some sender ∧ sender.addr = source := by
  obtain ⟨entry, hfind, rfl⟩ := Option.map_eq_some_iff.mp h
  refine ⟨entry.2, Table.lookup_eq_some_iff.mpr (List.mem_of_find?_eq_some hfind), ?_⟩
  simpa using List.find?_some hfind

theorem send_handles (hsend : data.head? = some SEND) (sourceAddr : SocketAddr) (id : NodeId) :
    Handles hub data source sourceAddr id clock (hub.send data source id clock).1
      (hub.send data source id clock).2 := by
  unfold send
  split
  · exact .dropped ⟨rfl, rfl⟩ (.refl _)
  · split
    · exact .dropped ⟨rfl, rfl⟩ (.refl _)
    · next sourceId hsender =>
      obtain ⟨sender, hlookup, haddr⟩ := senderAt_spec hsender
      split
      · exact .dropped ⟨rfl, rfl⟩ (.of_sub (Table.erase_sub _ _))
      · next hexpired =>
        have hlive : clock.unix < sender.expiresAt := by
          rw [hlookup, Option.any_some, decide_eq_true_iff] at hexpired
          exact not_le.mp hexpired
        have htouch := later_touch hub.clients sourceId clock.instant
        dsimp only
        split
        · unfold forward
          split
          · exact .dropped ⟨rfl, rfl⟩ htouch
          · next destination hdestination =>
            obtain ⟨before, hbefore, hsame, hexpiry⟩ := htouch id destination hdestination
            split
            · exact .dropped ⟨rfl, rfl⟩ (htouch.trans (.of_sub (Table.erase_sub _ _)))
            · next hreachable =>
              rw [hsame]
              refine .forwarded ⟨rfl, rfl⟩ htouch hsend hlookup haddr hlive hbefore ?_
              rw [← hexpiry]
              exact not_le.mp hreachable
        · exact .dropped ⟨rfl, rfl⟩ htouch

theorem ping_handles (hping : data.head? = some PING) (sourceAddr : SocketAddr) (id : NodeId) :
    Handles hub data source sourceAddr id clock (hub.ping data source sourceAddr id clock).1
      (hub.ping data source sourceAddr id clock).2 := by
  unfold ping
  split
  · exact .dropped ⟨rfl, rfl⟩ (.refl _)
  · next hlength =>
    rw [not_not] at hlength
    split
    · next hregistered =>
      obtain ⟨client, hclient, hholds⟩ := (Option.any_eq_true _ _).mp hregistered
      rw [Bool.and_eq_true, decide_eq_true_iff, decide_eq_true_iff] at hholds
      have htouch := later_touch hub.clients id clock.instant
      dsimp only
      split
      · exact .observed ⟨rfl, rfl⟩ htouch hping hlength hclient hholds.1 hholds.2
      · exact .dropped ⟨rfl, rfl⟩ htouch
    · exact .dropped ⟨rfl, rfl⟩ (.refl _)

/-- A frame that registers nothing does what `Handles` allows. -/
theorem dispatch_handles (hregister : data.head? ≠ some REGISTER) (sourceAddr : SocketAddr)
    (id : NodeId) :
    Handles hub data source sourceAddr id clock (hub.dispatch mac data source sourceAddr id clock).1
      (hub.dispatch mac data source sourceAddr id clock).2 := by
  unfold dispatch
  rw [if_neg hregister]
  split
  · next hsend => exact send_handles hsend sourceAddr id
  · split
    · next hping => exact ping_handles hping sourceAddr id
    · exact .dropped ⟨rfl, rfl⟩ (.refl _)

/-! ## Where clients come from -/

/-- A client of the table after a frame: it has just registered, or it was there before, at an
address nobody else has just registered from. -/
inductive From (clients : Table NodeId Client) (accepted : Option (NodeId × Client)) (id : NodeId)
    (client : Client) : Prop where
  | registered (h : accepted = some (id, client))
  | kept (before : Client) (hbefore : clients.lookup id = some before)
      (haddr : client.addr = before.addr) (hexpires : client.expiresAt = before.expiresAt)
      (hothers : ∀ id' client', accepted = some (id', client') →
        id' ≠ id ∧ client'.addr ≠ client.addr)

theorem From.of_later {clients clients' : Table NodeId Client} (h : Later clients clients')
    (hclient : clients'.lookup id = some client) : From clients none id client := by
  obtain ⟨before, hbefore, haddr, hexpires⟩ := h id client hclient
  exact .kept before hbefore haddr hexpires nofun

theorem registration_addr (h : hub.registration mac data source id clock = some client) :
    client.addr = source := by
  unfold registration at h
  dsimp only at h
  split_ifs at h
  cases h
  rfl

theorem register_from {known : NodeId}
    (h : (hub.register mac data source id clock).clients.lookup known = some client) :
    From hub.clients ((hub.registration mac data source id clock).map fun client => (id, client))
      known client := by
  unfold register at h
  split at h
  · next hnone =>
    rw [hnone]
    exact .of_later (.refl _) h
  · next registered hregistered =>
    rw [hregistered, Option.map_some]
    rw [Table.lookup_insert_if] at h
    split at h
    · next hknown =>
      subst hknown
      cases h
      exact .registered rfl
    · next hother =>
      obtain ⟨hbefore, hkeep⟩ := Table.lookup_retain_eq_some.mp h
      refine .kept client hbefore rfl rfl fun id' client' heq => ?_
      cases heq
      rw [registration_addr hregistered]
      refine ⟨Ne.symm hother, fun haddr => ?_⟩
      simp [hother, haddr] at hkeep

variable (mac)

theorem Handles.kept {sourceAddr : SocketAddr} {packet : Option Packet}
    (h : Handles hub data source sourceAddr id clock hub' packet) : Kept hub hub' := by
  cases h with
  | dropped hkept _ | forwarded hkept _ _ _ _ _ _ _ | observed hkept _ _ _ _ _ _ => exact hkept

theorem Handles.later {sourceAddr : SocketAddr} {packet : Option Packet}
    (h : Handles hub data source sourceAddr id clock hub' packet) :
    Later hub.clients hub'.clients := by
  cases h with
  | dropped _ hclients | forwarded _ hclients _ _ _ _ _ _ | observed _ hclients _ _ _ _ _ =>
    exact hclients

/-- A frame: nothing but a count, a registration, or what `Handles` allows. -/
inductive Applies (mac : List UInt8 → NodeId → Nat → Token) (hub : Hub) (data : List UInt8)
    (source : PeerAddr) (clock : Clock) :
    Hub → Option Packet → Option (NodeId × Client) → Prop where
  | refused (buckets : Table IpAddr Bucket) :
      Applies mac hub data source clock { hub with sourceBuckets := buckets } none none
  | registering (buckets : Table IpAddr Bucket) (id : NodeId) (sourceAddr : SocketAddr)
      (hremote : hub.remote source = some sourceAddr) (hid : frameId data = some id)
      (hregister : data.head? = some REGISTER) :
      Applies mac hub data source clock
        (register mac { hub with sourceBuckets := buckets } data source id clock) none
        ((hub.registration mac data source id clock).map fun client => (id, client))
  | handled (buckets : Table IpAddr Bucket) (id : NodeId) (sourceAddr : SocketAddr)
      {hub' : Hub} {packet : Option Packet}
      (hremote : hub.remote source = some sourceAddr) (hid : frameId data = some id)
      (hhandles : Handles { hub with sourceBuckets := buckets } data source sourceAddr id clock
        hub' packet) :
      Applies mac hub data source clock hub' packet none

theorem handle_applies (hub : Hub) (data : List UInt8) (source : PeerAddr) (clock : Clock) :
    Applies mac hub data source clock (hub.handle mac data source clock).1
      (hub.handle mac data source clock).2 (hub.accepts mac data source clock) := by
  obtain ⟨buckets, hcounted, hchecked⟩ := hub.admitFrame_eq data source clock
  unfold handle accepts
  rcases hframe : hub.admitFrame data source clock with ⟨counted, _ | ⟨sourceAddr, id⟩⟩
  · rw [hframe] at hcounted
    rw [hcounted]
    exact .refused buckets
  · rw [hframe] at hcounted hchecked
    obtain ⟨hremote, hid⟩ := hchecked sourceAddr id rfl
    dsimp only at hcounted ⊢
    subst hcounted
    by_cases hregister : data.head? = some REGISTER
    · rw [dispatch, if_pos hregister, if_pos hregister]
      exact .registering buckets id sourceAddr hremote hid hregister
    · rw [if_neg hregister]
      exact .handled buckets id sourceAddr hremote hid (dispatch_handles hregister sourceAddr id)

variable {mac}

section

variable (h : Applies mac hub data source clock hub' packet accepted)
include h

theorem Applies.kept : Kept hub hub' := by
  cases h with
  | refused buckets => exact ⟨rfl, rfl⟩
  | registering buckets id sourceAddr hremote hid hregister =>
    unfold register
    split
    · exact ⟨rfl, rfl⟩
    · exact ⟨rfl, rfl⟩
  | handled buckets id sourceAddr hremote hid hhandles =>
    exact ⟨hhandles.kept.config, hhandles.kept.streams⟩

theorem Applies.clients (hclient : hub'.clients.lookup id = some client) :
    From hub.clients accepted id client := by
  cases h with
  | refused buckets => exact .of_later (.refl _) hclient
  | registering buckets id sourceAddr hremote hid hregister =>
    have hfrom := register_from hclient
    exact hfrom
  | handled buckets id sourceAddr hremote hid hhandles => exact .of_later hhandles.later hclient

/-- A registration is what a frame of its own registers, from an address that is known. -/
theorem Applies.registered (haccepted : accepted = some (id, client)) :
    (hub.remote source).isSome ∧ data.head? = some REGISTER ∧ frameId data = some id ∧
      hub.registration mac data source id clock = some client := by
  cases h with
  | refused buckets | handled buckets id sourceAddr hremote hid hhandles => cases haccepted
  | registering buckets id sourceAddr hremote hid hregister =>
    obtain ⟨registered, hregistered, heq⟩ := Option.map_eq_some_iff.mp haccepted
    cases heq
    exact ⟨Option.isSome_iff_exists.mpr ⟨_, hremote⟩, hregister, hid, hregistered⟩

end

/-! ## Events -/

theorem step_from (hub : Hub) (event : HubEvent)
    (h : (hub.step mac event).clients.lookup id = some client) :
    From hub.clients (hub.accepted mac event) id client := by
  cases event with
  | received data source clock => exact (hub.handle_applies mac data (.udp source) clock).clients h
  | frame stream data clock => exact (hub.handle_applies mac data (.stream stream) clock).clients h
  | opened stream remote => exact .of_later (.refl _) h
  | closed stream | reap clock => exact .of_later (.of_sub (Table.retain_sub _ _)) h

/-- Nobody shares an address. -/
def Injective (hub : Hub) : Prop :=
  ∀ id id' client client', hub.clients.lookup id = some client →
    hub.clients.lookup id' = some client' → client.addr = client'.addr → id = id'

/-- A client on a stream is on one that is open. -/
def StreamsOpen (hub : Hub) : Prop :=
  ∀ id client stream, hub.clients.lookup id = some client → client.addr = .stream stream →
    (hub.streams.lookup stream).isSome

theorem step_injective (h : hub.Injective) (event : HubEvent) : (hub.step mac event).Injective := by
  intro id id' client client' hclient hclient' haddr
  have hfrom := hub.step_from event hclient
  have hfrom' := hub.step_from event hclient'
  cases hfrom with
  | registered haccepted =>
    cases hfrom' with
    | registered haccepted' =>
      rw [haccepted] at haccepted'
      exact (Prod.mk.inj (Option.some.inj haccepted')).1
    | kept before' hbefore' haddr' hexpires' hothers' =>
      exact absurd haddr (hothers' id client haccepted).2
  | kept before hbefore hsame hexpires hothers =>
    cases hfrom' with
    | registered haccepted' =>
      exact absurd haddr.symm (hothers id' client' haccepted').2
    | kept before' hbefore' hsame' hexpires' hothers' =>
      exact h id id' before before' hbefore hbefore' (hsame.symm.trans (haddr.trans hsame'))

theorem handle_streamsOpen (h : hub.StreamsOpen) (data : List UInt8) (source : PeerAddr)
    (clock : Clock) : (hub.handle mac data source clock).1.StreamsOpen := by
  intro id client stream hclient hstream
  have happlies := hub.handle_applies mac data source clock
  rw [happlies.kept.streams]
  have hfrom := happlies.clients hclient
  cases hfrom with
  | registered haccepted =>
    obtain ⟨hremote, -, -, hregistered⟩ := happlies.registered haccepted
    rw [← registration_addr hregistered, hstream] at hremote
    exact hremote
  | kept before hbefore haddr hexpires hothers =>
    exact h id before stream hbefore (haddr.symm.trans hstream)

theorem step_streamsOpen (h : hub.StreamsOpen) (event : HubEvent) :
    (hub.step mac event).StreamsOpen := by
  cases event with
  | received data source clock => exact handle_streamsOpen h data (.udp source) clock
  | frame stream data clock => exact handle_streamsOpen h data (.stream stream) clock
  | opened added remote =>
    intro id client stream hclient hstream
    change ((hub.streams.insert added remote).lookup stream).isSome
    rw [Table.lookup_insert_if]
    split_ifs
    · rfl
    · exact h id client stream hclient hstream
  | closed gone =>
    intro id client stream hclient hstream
    obtain ⟨hbefore, hkeep⟩ := Table.lookup_retain_eq_some.mp hclient
    have hother : stream ≠ gone := by
      rintro rfl
      exact of_decide_eq_true hkeep hstream
    change ((hub.streams.erase gone).lookup stream).isSome
    rw [Table.lookup_erase_if, if_neg hother]
    exact h id client stream hbefore hstream
  | reap clock =>
    intro id client stream hclient hstream
    exact h id client stream (Table.lookup_retain_eq_some.mp hclient).1 hstream

end Hub

/-! ## The frames that register -/

/-- The frame an event brings, and where it comes from. -/
def HubEvent.frame? : HubEvent → Option (List UInt8 × PeerAddr)
  | .received data source _ => some (data, .udp source)
  | .frame id data _ => some (data, .stream id)
  | .opened _ _ | .closed _ | .reap _ => none

variable (mac) in
/-- The frame of a node with the token that is minted for it. -/
def mintedFrame (authSecret : List UInt8) (id : NodeId) (expiresAt : Nat) : List UInt8 :=
  registerFrame id expiresAt (mac authSecret id expiresAt)

/-- A frame is its type, the id after it and the rest. -/
theorem frame_eq {id : NodeId} {data : List UInt8} {kind : UInt8} (hkind : data.head? = some kind)
    (hid : frameId data = some id) : data = kind :: (id.val ++ data.drop HEADER) := by
  obtain ⟨rest, rfl⟩ := List.head?_eq_some_iff.mp hkind
  unfold frameId at hid
  dsimp only at hid
  split at hid
  · cases hid
    change kind :: rest = kind :: (rest.take ID_LEN ++ (kind :: rest).drop (1 + ID_LEN))
    rw [Nat.add_comm, List.drop_succ_cons, List.take_append_drop]
  · cases hid

/-- What is accepted is the frame with the minted token, before its expiry. -/
theorem Hub.registration_frame {id : NodeId}
    {hub : Hub} {data : List UInt8} {source : PeerAddr} {clock : Clock}
    {client : Client} (hkind : data.head? = some REGISTER) (hid : frameId data = some id)
    (h : hub.registration mac data source id clock = some client) :
    data = mintedFrame mac hub.config.authSecret id client.expiresAt ∧
      clock.unix < client.expiresAt := by
  unfold registration at h
  split at h
  · cases h
  · next hlength =>
    rw [not_not] at hlength
    dsimp only at h
    split at h
    · cases h
    · next htoken =>
      split at h
      · cases h
      · next hlive =>
        cases h
        refine ⟨?_, not_le.mp hlive⟩
        rw [verifyToken, Bool.not_eq_false, Bool.and_eq_true, Bool.and_eq_true,
          decide_eq_true_iff, decide_eq_true_iff] at htoken
        have hexpiry : ((data.drop HEADER).take EXPIRY_LEN).length = EXPIRY_LEN := by
          rw [List.length_take, List.length_drop, hlength]
          rfl
        have hread := toBe_ofBe ((data.drop HEADER).take EXPIRY_LEN)
        rw [hexpiry] at hread
        rw [mintedFrame, registerFrame, hread, ← htoken.2, List.append_assoc, ← List.drop_drop,
          List.take_append_drop]
        exact frame_eq hkind hid

namespace Hub

/-- What an event registers is what its frame carries, at the address it came from. -/
theorem accepted_frame {hub : Hub} {id : NodeId} {client : Client}
    {event : HubEvent} (h : hub.accepted mac event = some (id, client)) :
    event.frame? =
      some (mintedFrame mac hub.config.authSecret id client.expiresAt, client.addr) := by
  cases event with
  | received data source clock =>
    obtain ⟨-, hkind, hid, hregistered⟩ :=
      (hub.handle_applies mac data (.udp source) clock).registered h
    rw [HubEvent.frame?, ← (registration_frame hkind hid hregistered).1,
      registration_addr hregistered]
  | frame stream data clock =>
    obtain ⟨-, hkind, hid, hregistered⟩ :=
      (hub.handle_applies mac data (.stream stream) clock).registered h
    rw [HubEvent.frame?, ← (registration_frame hkind hid hregistered).1,
      registration_addr hregistered]
  | opened stream remote | closed stream | reap clock => cases h

theorem step_config (hub : Hub) (event : HubEvent) : (hub.step mac event).config = hub.config := by
  cases event with
  | received data source clock =>
    exact (hub.handle_applies mac data (.udp source) clock).kept.config
  | frame stream data clock =>
    exact (hub.handle_applies mac data (.stream stream) clock).kept.config
  | opened stream remote | closed stream | reap clock => rfl

/-! ## Registrations in the past -/

/-- The last registration of `id` that was accepted: its frame came from the client's address, with
the token minted for `id` and the client's expiry, and nothing of `id` was accepted since. -/
def LastAccepted (mac : List UInt8 → NodeId → Nat → Token) (config : HubConfig)
    (events : List HubEvent) (id : NodeId) (client : Client) : Prop :=
  Since (step mac)
    (fun hub event => hub.accepted mac event = some (id, client) ∧
      event.frame? = some (mintedFrame mac config.authSecret id client.expiresAt, client.addr))
    (fun hub event => ∀ other, hub.accepted mac event ≠ some (id, other))
    { config := config } events

/-- Every client is as its last accepted registration asked for. -/
structure FromPast (mac : List UInt8 → NodeId → Nat → Token) (config : HubConfig)
    (events : List HubEvent) (hub : Hub) : Prop where
  config_eq : hub.config = config
  registered : ∀ id client, hub.clients.lookup id = some client → ∃ registered,
    LastAccepted mac config events id registered ∧ client.addr = registered.addr ∧
      client.expiresAt = registered.expiresAt

variable (config : HubConfig)

variable (events : List HubEvent)

theorem run_fromPast : FromPast mac config events (run (step mac) { config := config } events) := by
  refine run_history (P := FromPast mac config) ⟨rfl, fun id client hclient => ?_⟩ ?_ events
  · cases hclient
  · intro past event hpast
    refine ⟨(step_config _ event).trans hpast.config_eq, fun id client hclient => ?_⟩
    cases step_from _ event hclient with
    | registered haccepted =>
      have hframe := accepted_frame haccepted
      rw [hpast.config_eq] at hframe
      exact ⟨client, since_snoc_iff.mpr (.inl ⟨haccepted, hframe⟩), rfl, rfl⟩
    | kept before hbefore haddr hexpires hothers =>
      obtain ⟨registered, hlast, haddr', hexpires'⟩ := hpast.registered id before hbefore
      refine ⟨registered, since_snoc_iff.mpr (.inr ⟨hlast, fun other haccepted => ?_⟩),
        haddr.trans haddr', hexpires.trans hexpires'⟩
      exact (hothers id other haccepted).1 rfl

theorem run_injective : (run (step mac) { config := config } events).Injective := by
  have hstep : ∀ (hub : Hub) event, hub.Injective → (hub.step mac event).Injective :=
    fun _ event h => step_injective h event
  refine run_invariant hstep events fun id id' client client' hclient => ?_
  cases hclient

theorem run_streamsOpen : (run (step mac) { config := config } events).StreamsOpen := by
  have hstep : ∀ (hub : Hub) event, hub.StreamsOpen → (hub.step mac event).StreamsOpen :=
    fun _ event h => step_streamsOpen h event
  refine run_invariant hstep events fun id client stream hclient => ?_
  cases hclient

/-! ## What is sent -/

/-- A packet that is sent, in terms of the registrations in force. -/
inductive Sends (hub : Hub) (data : List UInt8) (source : PeerAddr) (clock : Clock) :
    Packet → Prop where
  | forwarded {sourceId id : NodeId} {sender destination : Client} (payload : List UInt8)
      (hsend : data = SEND :: (id.val ++ payload))
      (hsender : hub.clients.lookup sourceId = some sender) (haddr : sender.addr = source)
      (hlive : clock.unix < sender.expiresAt)
      (hdestination : hub.clients.lookup id = some destination)
      (hreachable : clock.unix < destination.expiresAt) :
      Sends hub data source clock (destination.addr, forwardedFrame sourceId payload)
  | observed {id : NodeId} {client : Client} (sourceAddr : SocketAddr)
      (hping : data = PING :: id.val) (hclient : hub.clients.lookup id = some client)
      (haddr : client.addr = source) (hlive : clock.unix < client.expiresAt) :
      Sends hub data source clock (source, observedFrame id sourceAddr)

theorem Applies.sends {hub : Hub} {clock : Clock} {hub' : Hub}
    {data : List UInt8} {source : PeerAddr} {packet : Packet}
    {accepted : Option (NodeId × Client)}
    (h : Applies mac hub data source clock hub' (some packet) accepted) :
    Sends hub data source clock packet := by
  cases h with
  | handled buckets id sourceAddr hremote hid hhandles =>
    cases hhandles with
    | forwarded _ _ hsend hsender haddr hlive hdestination hreachable =>
      exact .forwarded _ (frame_eq hsend hid) hsender haddr hlive hdestination hreachable
    | observed _ _ hping hlength hclient haddr hlive =>
      have hframe := frame_eq hping hid
      rw [List.drop_eq_nil_of_le (le_of_eq hlength), List.append_nil] at hframe
      exact .observed sourceAddr hframe hclient haddr hlive

end Hub

/-- In every sequence of events: (1) no two nodes share an address, and a client on a stream is on
an open one; (2) a forwarded packet names the node whose last accepted registration came from the
address of the SEND frame, with the token minted for it and an expiry in the future, and takes the
payload of the frame to the address of the unexpired registration of the requested node; (3) an
OBSERVED reply goes to the address that holds the live registration of the pinged node. -/
theorem hub_attribution (config : HubConfig) (events : List HubEvent) :
    let hub := run (Hub.step mac) { config := config } events
    (hub.Injective ∧ hub.StreamsOpen) ∧
    ∀ data source clock address packet,
      (hub.handle mac data source clock).2 = some (address, packet) →
      (packet.head? = some FORWARDED → ∃ sourceId id payload registered destination,
        packet = forwardedFrame sourceId payload ∧ data = SEND :: (id.val ++ payload) ∧
        Hub.LastAccepted mac config events sourceId registered ∧ registered.addr = source ∧
        clock.unix < registered.expiresAt ∧
        hub.clients.lookup id = some destination ∧ clock.unix < destination.expiresAt ∧
        address = destination.addr) ∧
      (packet.head? = some OBSERVED → ∃ id client,
        data = PING :: id.val ∧ hub.clients.lookup id = some client ∧
        clock.unix < client.expiresAt ∧ address = client.addr) := by
  intro hub
  refine ⟨⟨Hub.run_injective config events, Hub.run_streamsOpen config events⟩, ?_⟩
  intro data source clock address packet hsent
  have happlies := hub.handle_applies mac data source clock
  rw [hsent] at happlies
  have hpast : Hub.FromPast mac config events hub := Hub.run_fromPast config events
  cases happlies.sends with
  | @forwarded sourceId id sender destination payload hsend hsender haddr hlive hdestination
      hreachable =>
    obtain ⟨registered, hlast, hsame, hexpires⟩ := hpast.registered sourceId sender hsender
    refine ⟨fun _ => ⟨sourceId, id, payload, registered, destination, rfl, hsend, hlast,
      hsame.symm.trans haddr, ?_, hdestination, hreachable, rfl⟩, fun hkind => ?_⟩
    · rw [← hexpires]
      exact hlive
    · exact absurd (Option.some.inj hkind) (show FORWARDED ≠ OBSERVED by decide)
  | @observed id client sourceAddr hping hclient haddr hlive =>
    refine ⟨fun hkind => ?_, fun _ => ⟨id, client, hping, hclient, hlive, haddr.symm⟩⟩
    exact absurd (Option.some.inj hkind) (show OBSERVED ≠ FORWARDED by decide)

/-- The wire format round-trips: a client reads from an OBSERVED frame the address the relay wrote,
and only frames the relay writes for that address; the two writers of SEND frames agree; and of
what a client sends to another, the relay makes a frame from which that one reads the registered
sender and the payload. -/
theorem wire_round_trips :
    (∀ (id : NodeId) (observed : SocketAddr), observed.port ≠ 0 →
      parseObserved (observedFrame id observed) id = some observed) ∧
    (∀ (frame : List UInt8) (id : NodeId) (observed : SocketAddr),
      parseObserved frame id = some observed → observedFrame id observed = frame) ∧
    (∀ (destination : NodeId) (payload out : List UInt8),
      writeSendFrame destination payload out = (sendFrame destination payload).bind fun frame =>
        if out.length < frame.length then none
        else some (frame.length, frame ++ out.drop frame.length)) ∧
    ∀ (destination : NodeId) (payload : List UInt8), payload.length ≤ MAX_PAYLOAD →
      ∃ frame, sendFrame destination payload = some frame ∧
        ∀ (mac : List UInt8 → NodeId → Nat → Token) (hub : Hub) (source : PeerAddr) (clock : Clock)
          (address : PeerAddr) (packet : List UInt8),
          (hub.handle mac frame source clock).2 = some (address, packet) →
          ∃ sourceId sender, hub.clients.lookup sourceId = some sender ∧ sender.addr = source ∧
            parseForwarded packet = some (sourceId, payload) := by
  refine ⟨parseObserved_observedFrame, fun _ _ _ => observedFrame_of_parseObserved,
    writeSendFrame_eq, fun destination payload hpayload => ?_⟩
  refine ⟨_, if_neg (Nat.not_lt.mpr hpayload), fun mac hub source clock address packet hsent => ?_⟩
  have happlies := hub.handle_applies mac (SEND :: (destination.val ++ payload)) source clock
  rw [hsent] at happlies
  generalize hframe : SEND :: (destination.val ++ payload) = frame at happlies
  cases happlies.sends with
  | @forwarded sourceId id sender _ carried hsend hsender haddr _ _ _ =>
    -- the frame is cut behind the header, so the payload is the one that was wrapped
    obtain ⟨-, rfl⟩ := List.append_inj (List.cons.inj (hframe.trans hsend)).2
      (destination.property.trans id.property.symm)
    exact ⟨sourceId, sender, hsender, haddr, parseForwarded_forwardedFrame sourceId _ hpayload⟩
  | observed _ hping _ _ _ =>
    exact absurd (List.cons.inj (hframe.trans hping)).1 (show SEND ≠ PING by decide)

end BlakTail.Relay
