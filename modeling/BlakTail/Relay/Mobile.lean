import BlakTail.Relay.Frame
import BlakTail.Relay.PeerPath
import BlakTail.Relay.Select

/-!
# The Mobile Relay Session

The relay session of clients whose sockets live outside: it decides what is sent where.  The
platform calls it in any order.
-/

namespace BlakTail.Relay

open Foundation

def RELAY_GRACE : Nat := secs 35
def FAILBACK_PROBE : Nat := secs 10
def MAX_PEERS : Nat := 4096
def MAX_QUEUED_CONTROL : Nat := 16

/-- `[u8; 32]`. -/
abbrev PublicKey := BitVec 256

structure RelayOption where
  endpoint : String
  region : String
  wss : Option String
  deriving DecidableEq

/-- A control frame the platform must send. -/
structure Control where
  link : Link
  endpoint : String
  frame : List UInt8
  deriving DecidableEq

structure Outbound where
  direct : Bool
  relay : Option Link
  deriving DecidableEq

structure Peer where
  id : NodeId
  path : PeerPath
  active : Bool
  deriving DecidableEq

structure Active where
  endpoint : String
  wss : Option String
  ladder : LinkLadder
  started : Nat
  lastSeen : Option Nat
  roundEnds : Nat
  deriving DecidableEq

structure Failback where
  endpoint : String
  deadline : Nat
  deriving DecidableEq

def endpoints (relays : List RelayOption) : List String := relays.map RelayOption.endpoint

def listed (relays : List RelayOption) (endpoint : String) : Option RelayOption :=
  relays.find? fun relay => relay.endpoint = endpoint

/-- The WebSocket of an entry, where the platform has one. -/
def wssOf (allowWss : Bool) (relay : RelayOption) : Option String :=
  relay.wss.filter fun _ => allowWss

/-- A relay that has just been chosen. -/
def fresh (allowWss : Bool) (relays : List RelayOption) (endpoint : String) (now : Nat) : Active :=
  let wss := (listed relays endpoint).bind (wssOf allowWss)
  let ladder := LinkLadder.new wss.isSome
  { endpoint := endpoint
    wss := wss
    ladder := ladder
    started := now
    lastSeen := none
    roundEnds := now + ladder.roundLength }

structure MobileRelay where
  selfId : NodeId
  token : Token
  expiresAtUnix : Nat
  allowWss : Bool
  relays : List RelayOption
  selector : Selector String
  active : Option Active
  failback : Option Failback
  peers : Table PublicKey Peer
  control : List Control

namespace MobileRelay

def new (selfId : NodeId) (allowWss : Bool) : MobileRelay :=
  { selfId := selfId
    token := ⟨List.replicate TOKEN_LEN 0, List.length_replicate⟩
    expiresAtUnix := 0
    allowWss := allowWss
    relays := []
    selector := {}
    active := none
    failback := none
    peers := ∅
    control := [] }

variable (s : MobileRelay)

/-! ## Registration -/

/-- REGISTER and PING; the oldest queued frames make room. -/
def pushProbe (link : Link) (endpoint : String) : MobileRelay :=
  if s.expiresAtUnix = 0 then s
  else
    { s with control := s.control.drop (s.control.length + 2 - MAX_QUEUED_CONTROL) ++
      [⟨link, endpoint, registerFrame s.selfId s.expiresAtUnix s.token⟩,
       ⟨link, endpoint, pingFrame s.selfId⟩] }

/-- Always over UDP, the probe that lets the ladder promote back; over the WebSocket too while it
carries traffic and UDP does not answer. -/
def queueRegistration : MobileRelay :=
  match s.active with
  | none => s
  | some active =>
    let probed := s.pushProbe .udp active.endpoint
    if active.ladder.link = .wss ∧ active.ladder.udpProven = false then
      probed.pushProbe .wss active.endpoint
    else probed

/-! ## The active relay -/

def candidates : List String := endpoints s.relays

def activate (endpoint : String) (now : Nat) : MobileRelay :=
  queueRegistration { s with active := some (fresh s.allowWss s.relays endpoint now) }

def activateChoice (now : Nat) : MobileRelay :=
  match s.selector.choose s.candidates now with
  | some endpoint => s.activate endpoint now
  | none => s

/-- The coordinator's capability and list; the active relay is kept when it is still listed. -/
def configure (token : Token) (expiresAtUnix : Nat) (relays : List RelayOption) (now : Nat) :
    MobileRelay :=
  let changed := token ≠ s.token ∨ expiresAtUnix ≠ s.expiresAtUnix
  let next := { s with token := token, expiresAtUnix := expiresAtUnix, relays := relays }
  match s.active, s.active.bind fun active => listed relays active.endpoint with
  | some active, some relay =>
    let wss := wssOf s.allowWss relay
    let active := { active with wss := wss, ladder := active.ladder.setWssAvailable wss.isSome }
    let kept := { next with active := some active }
    if changed then kept.queueRegistration else kept
  | _, _ => activateChoice { next with active := none } now

/-! ## Peers -/

def setPeer (publicKey : PublicKey) (id : NodeId) (hasDirect : Bool) : MobileRelay :=
  match s.peers.lookup publicKey with
  | some peer =>
    let peer := { peer with id := id, path := peer.path.setHasDirect hasDirect, active := true }
    { s with peers := s.peers.insert publicKey peer }
  | none =>
    if MAX_PEERS ≤ s.peers.size then s
    else { s with peers := s.peers.insert publicKey ⟨id, PeerPath.new hasDirect, true⟩ }

def beginPeerRefresh : MobileRelay :=
  { s with peers := s.peers.mapValues fun peer => { peer with active := false } }

def endPeerRefresh : MobileRelay :=
  { s with peers := s.peers.retain fun _ peer => peer.active }

def relayReady : Bool := s.active.isSome && 0 < s.expiresAtUnix

def activeLink : Option Link := s.active.map fun active => active.ladder.link

def outbound (peer : PublicKey) (now : Nat) : MobileRelay × Outbound :=
  match s.peers.lookup peer with
  | none => (s, ⟨true, none⟩)
  | some state =>
    let (path, route) := state.path.route now s.relayReady
    ({ s with peers := s.peers.insert peer { state with path := path } },
      ⟨route.direct, if route.relay then s.activeLink else none⟩)

def peerId (peer : PublicKey) : Option NodeId := (s.peers.lookup peer).map Peer.id

def directReceived (peer : PublicKey) : MobileRelay :=
  match s.peers.lookup peer with
  | none => s
  | some state =>
    { s with peers := s.peers.insert peer { state with path := state.path.directReceived } }

/-! ## Frames from relays -/

/-- The pending fail-back probe is answered in time. -/
def answersProbe (failback : Failback) (link : Link) (endpoint : String) (now : Nat) : Bool :=
  link = .udp && failback.endpoint = endpoint && now < failback.deadline

/-- Whether an answer on a link is the active relay's. -/
def answersFor (active : Active) (link : Link) (endpoint : String) : Bool :=
  match link with
  | .udp => active.endpoint = endpoint
  | .wss => active.wss.isSome

/-- An answer counts for the active relay. -/
def observedActive (link : Link) (endpoint : String) (now : Nat) : MobileRelay :=
  match s.active with
  | none => s
  | some active =>
    let seen :=
      { active with
        lastSeen := some now
        ladder := if link = .udp then active.ladder.udpAnswered else active.ladder }
    if answersFor active link endpoint then
      { s with active := some seen, selector := s.selector.recordHealthy active.endpoint }
    else s

def observed (link : Link) (endpoint : String) (now : Nat) : MobileRelay :=
  match s.failback.filter fun failback => answersProbe failback link endpoint now with
  | some failback =>
    let selector := (s.selector.recordHealthy failback.endpoint).noteFailback
    activate { s with failback := none, selector := selector } failback.endpoint now
  | none => s.observedActive link endpoint now

/-- Only the active relay may deliver. -/
def fromActive (link : Link) (endpoint : String) : Bool :=
  s.active.any fun active =>
    match link with
    | .udp => active.endpoint = endpoint
    | .wss => active.ladder.link = .wss

/-- A frame from a relay: the sending peer and the payload of a FORWARDED frame. -/
def inbound (data : List UInt8) (link : Link) (endpoint : String) (now : Nat) :
    MobileRelay × Option (PublicKey × List UInt8) :=
  if (parseObserved data s.selfId).isSome then (s.observed link endpoint now, none)
  else
    (s, do
      let (source, payload) ← parseForwarded data
      if s.fromActive link endpoint then
        let entry ← s.peers.entries.find? fun entry => entry.2.id = source
        some (entry.1, payload)
      else none)

/-! ## Timers -/

def healthy (active : Active) (now : Nat) : Bool :=
  match active.lastSeen with
  | none => now - active.started < RELAY_GRACE
  | some seen => now - seen < RELAY_HEALTH

/-- The relay is gone: the next one is chosen. -/
def failOver (active : Active) (now : Nat) : MobileRelay :=
  let selector := (s.selector.recordFailure active.endpoint now).noteFailover
  activateChoice { s with selector := selector, active := none } now

def endRound (active : Active) (now : Nat) : MobileRelay :=
  if active.roundEnds ≤ now then
    let ladder := active.ladder.endRound
    let active := { active with ladder := ladder, roundEnds := now + ladder.roundLength }
    queueRegistration { s with active := some active }
  else s

/-- A fail-back probe runs out, or one is sent. -/
def tickFailback (active : Active) (now : Nat) : MobileRelay :=
  match s.failback with
  | some failback =>
    if failback.deadline ≤ now then
      { s with failback := none, selector := s.selector.recordFailure failback.endpoint now }
    else s
  | none =>
    match s.selector.failbackTarget active.endpoint s.candidates now with
    | some target =>
      pushProbe { s with failback := some ⟨target, now + FAILBACK_PROBE⟩ } .udp target
    | none => s

def tickActive (active : Active) (now : Nat) : MobileRelay :=
  if healthy active now then (s.endRound active now).tickFailback active now
  else s.failOver active now

def tick (now : Nat) : MobileRelay :=
  if s.relays.isEmpty ∨ s.expiresAtUnix = 0 then { s with active := none }
  else
    let started := if s.active.isNone then s.activateChoice now else s
    match started.active with
    | none => started
    | some active => started.tickActive active now

def poll : MobileRelay × Option Control := ({ s with control := s.control.tail }, s.control.head?)

end MobileRelay

open MobileRelay

/-! ## Calls -/

inductive MobileCall where
  | configure (token : Token) (expiresAtUnix : Nat) (relays : List RelayOption) (now : Nat)
  | setPeer (publicKey : PublicKey) (id : NodeId) (hasDirect : Bool)
  | beginPeerRefresh
  | endPeerRefresh
  | outbound (peer : PublicKey) (now : Nat)
  | directReceived (peer : PublicKey)
  | inbound (data : List UInt8) (link : Link) (endpoint : String) (now : Nat)
  | tick (now : Nat)
  | poll

/-- One call of the platform. -/
def MobileRelay.step (s : MobileRelay) : MobileCall → MobileRelay
  | .configure token expiresAtUnix relays now => s.configure token expiresAtUnix relays now
  | .setPeer publicKey id hasDirect => s.setPeer publicKey id hasDirect
  | .beginPeerRefresh => s.beginPeerRefresh
  | .endPeerRefresh => s.endPeerRefresh
  | .outbound peer now => (s.outbound peer now).1
  | .directReceived peer => s.directReceived peer
  | .inbound data link endpoint now => (s.inbound data link endpoint now).1
  | .tick now => s.tick now
  | .poll => s.poll.1

/-! ## What the calls change -/

namespace MobileRelay

variable {s : MobileRelay}

variable (s)

theorem pushProbe_eq (link : Link) (endpoint : String) :
    ∃ control, s.pushProbe link endpoint = { s with control := control } := by
  unfold pushProbe
  split_ifs
  · exact ⟨s.control, rfl⟩
  · exact ⟨_, rfl⟩

/-- Registration only queues frames. -/
theorem queueRegistration_eq : ∃ control, s.queueRegistration = { s with control := control } := by
  unfold queueRegistration
  split
  · exact ⟨s.control, rfl⟩
  · next active _ =>
    obtain ⟨control, heq⟩ := s.pushProbe_eq .udp active.endpoint
    rw [heq]
    split_ifs
    · obtain ⟨control', heq'⟩ := pushProbe_eq { s with control := control } .wss active.endpoint
      exact ⟨control', heq'⟩
    · exact ⟨control, rfl⟩

theorem activate_eq (endpoint : String) (now : Nat) :
    ∃ control, s.activate endpoint now =
      { s with active := some (fresh s.allowWss s.relays endpoint now), control := control } :=
  queueRegistration_eq _

/-- A choice is made from the list. -/
theorem activateChoice_eq (now : Nat) :
    s.activateChoice now = s ∨ ∃ endpoint ∈ endpoints s.relays, ∃ control, s.activateChoice now =
      { s with active := some (fresh s.allowWss s.relays endpoint now), control := control } := by
  unfold activateChoice
  split
  · next endpoint hchoice =>
    exact .inr ⟨endpoint, Selector.mem_of_choose hchoice, s.activate_eq endpoint now⟩
  · exact .inl rfl

/-- The active relay once a list is in force: the one before, as it is listed now, or one chosen
from the list, or none. -/
inductive Keeps (allowWss : Bool) (relays : List RelayOption) (before : Option Active) (now : Nat) :
    Option Active → Prop where
  | kept (active : Active) (relay : RelayOption) (ladder : LinkLadder)
      (hbefore : before = some active)
      (hlisted : listed relays active.endpoint = some relay) :
      Keeps allowWss relays before now
        (some { active with wss := wssOf allowWss relay, ladder := ladder })
  | chosen (hgone : ∀ active, before = some active → listed relays active.endpoint = none)
      (endpoint : String) (hmem : endpoint ∈ endpoints relays) :
      Keeps allowWss relays before now (some (fresh allowWss relays endpoint now))
  | none (hgone : ∀ active, before = some active → listed relays active.endpoint = none) :
      Keeps allowWss relays before now none

theorem configure_eq (token : Token) (expiresAtUnix : Nat) (relays : List RelayOption) (now : Nat) :
    ∃ active control, Keeps s.allowWss relays s.active now active ∧
      s.configure token expiresAtUnix relays now =
        { s with
          token := token
          expiresAtUnix := expiresAtUnix
          relays := relays
          active := active
          control := control } := by
  unfold configure
  dsimp only
  split
  · next active relay hactive hlisted =>
    rw [hactive] at hlisted
    split_ifs
    · obtain ⟨control, heq⟩ := queueRegistration_eq _
      exact ⟨_, control, .kept active relay _ hactive hlisted, heq⟩
    · exact ⟨_, s.control, .kept active relay _ hactive hlisted, rfl⟩
  · next hunlisted =>
    have hgone : ∀ active, s.active = some active → listed relays active.endpoint = none := by
      intro active hactive
      cases hlisted : listed relays active.endpoint with
      | none => rfl
      | some relay =>
        exact absurd (by rw [hactive, Option.bind_some, hlisted]) (hunlisted active relay hactive)
    rcases activateChoice_eq _ now with heq | ⟨endpoint, hmem, control, heq⟩
    · exact ⟨none, s.control, .none hgone, heq⟩
    · exact ⟨_, control, .chosen hgone endpoint hmem, heq⟩

/-- What an OBSERVED reply changes: the probed relay becomes active, or the active one was seen. -/
theorem observed_eq (link : Link) (endpoint : String) (now : Nat) :
    (∃ failback selector control, s.failback = some failback ∧
        answersProbe failback link endpoint now ∧
        s.observed link endpoint now =
          { s with
            failback := none
            selector := selector
            active := some (fresh s.allowWss s.relays failback.endpoint now)
            control := control }) ∨
      s.observed link endpoint now = s ∨
      ∃ active lastSeen ladder selector, s.active = some active ∧
        s.observed link endpoint now =
          { s with
            active := some { active with lastSeen := lastSeen, ladder := ladder }
            selector := selector } := by
  unfold observed
  split
  · next failback hfilter =>
    obtain ⟨hpending, hanswers⟩ := Option.filter_eq_some_iff.mp hfilter
    obtain ⟨control, heq⟩ := activate_eq
      { s with
        failback := none
        selector := (s.selector.recordHealthy failback.endpoint).noteFailback }
      failback.endpoint now
    exact .inl ⟨failback, _, control, hpending, hanswers, heq⟩
  · refine .inr ?_
    unfold observedActive
    split
    · exact .inl rfl
    · next active hactive =>
      dsimp only
      split
      · exact .inr ⟨active, _, _, _, hactive, rfl⟩
      · exact .inl rfl

/-- A pending probe after a tick of a healthy relay: it is still pending, it ran out, or one was
sent to a relay before the active one. -/
inductive Probes (relays : List RelayOption) (endpoint : String) (before : Option Failback) :
    Option Failback → Prop where
  | same : Probes relays endpoint before before
  | expired : Probes relays endpoint before none
  | sent (hnone : before = none) (target : String) (deadline : Nat)
      (htarget : target ∈ (endpoints relays).takeWhile (· ≠ endpoint)) :
      Probes relays endpoint before (some ⟨target, deadline⟩)

theorem tickFailback_eq (active : Active) (now : Nat) :
    ∃ failback selector control, Probes s.relays active.endpoint s.failback failback ∧
      s.tickFailback active now =
        { s with failback := failback, selector := selector, control := control } := by
  unfold tickFailback
  split
  · next failback hpending =>
    split_ifs
    · exact ⟨none, _, s.control, .expired, rfl⟩
    · exact ⟨s.failback, s.selector, s.control, .same, rfl⟩
  · next hnone =>
    split
    · next target htarget =>
      obtain ⟨control, heq⟩ := pushProbe_eq
        { s with failback := some ⟨target, now + FAILBACK_PROBE⟩ } .udp target
      exact ⟨_, s.selector, control,
        .sent hnone target _ (Selector.mem_of_failbackTarget htarget), heq⟩
    · exact ⟨s.failback, s.selector, s.control, .same, rfl⟩

/-- The active relay once a choice was made. -/
def Chosen (now : Nat) (active : Option Active) : Prop :=
  active = none ∨ ∃ endpoint ∈ endpoints s.relays,
    active = some (fresh s.allowWss s.relays endpoint now)

theorem endRound_eq (s : MobileRelay) {active : Active} (hactive : s.active = some active)
    (now : Nat) : ∃ ladder roundEnds control, s.endRound active now =
      { s with
        active := some { active with ladder := ladder, roundEnds := roundEnds }
        control := control } := by
  unfold endRound
  split_ifs
  · obtain ⟨control, heq⟩ := queueRegistration_eq _
    exact ⟨_, _, control, heq⟩
  · refine ⟨active.ladder, active.roundEnds, s.control, ?_⟩
    change s = { s with active := some active }
    rw [← hactive]

/-- A tick of a healthy relay may end a round and a probe; one that is silent is given up. -/
theorem tickActive_eq {active : Active} (hactive : s.active = some active) (now : Nat) :
    (healthy active now ∧ ∃ ladder roundEnds failback selector control,
      Probes s.relays active.endpoint s.failback failback ∧
      s.tickActive active now =
        { s with
          active := some { active with ladder := ladder, roundEnds := roundEnds }
          failback := failback
          selector := selector
          control := control }) ∨
    (healthy active now = false ∧ ∃ chosen selector control, s.Chosen now chosen ∧
      s.tickActive active now =
        { s with active := chosen, selector := selector, control := control }) := by
  unfold tickActive
  cases hhealthy : healthy active now with
  | true =>
    obtain ⟨ladder, roundEnds, control, hround⟩ := s.endRound_eq hactive now
    rw [hround]
    obtain ⟨failback, selector, control', hprobes, heq⟩ := tickFailback_eq
      { s with
        active := some { active with ladder := ladder, roundEnds := roundEnds }
        control := control } active now
    exact .inl ⟨rfl, ladder, roundEnds, failback, selector, control', hprobes, heq⟩
  | false =>
    refine .inr ⟨rfl, ?_⟩
    rcases activateChoice_eq _ now with heq | ⟨endpoint, hmem, control, heq⟩
    · exact ⟨none, _, s.control, .inl rfl, heq⟩
    · exact ⟨_, _, control, .inr ⟨endpoint, hmem, rfl⟩, heq⟩

/-- There is something to register with. -/
def Running : Prop := s.relays ≠ [] ∧ s.expiresAtUnix ≠ 0

theorem running_of_not {s : MobileRelay} (h : ¬(s.relays.isEmpty ∨ s.expiresAtUnix = 0)) :
    s.Running := by
  rw [not_or, List.isEmpty_iff] at h
  exact h

/-- A tick: there is nothing to register with, or the relay that is active, or has just been chosen,
has its timers advanced. -/
theorem tick_eq (now : Nat) :
    s.tick now = { s with active := none } ∨
    (s.Running ∧ ∃ active control,
      (s.active = some active ∨ s.active = none ∧ s.Chosen now (some active)) ∧
      s.tick now = tickActive { s with active := some active, control := control } active now) := by
  unfold tick
  split_ifs with hstopped hnone
  · exact .inl rfl
  · have hnone' : s.active = none := Option.isNone_iff_eq_none.mp hnone
    rcases s.activateChoice_eq now with heq | ⟨endpoint, hmem, control, heq⟩
    · left
      dsimp only
      rw [heq, hnone']
      change s = { s with active := none }
      rw [← hnone']
    · right
      rw [heq]
      exact ⟨running_of_not hstopped, _, control,
        .inr ⟨hnone', .inr ⟨endpoint, hmem, rfl⟩⟩, rfl⟩
  · right
    cases hactive : s.active with
    | none => exact absurd (Option.isNone_iff_eq_none.mpr hactive) hnone
    | some active =>
      have hself : { s with active := some active, control := s.control } = s := by
        rw [← hactive]
      refine ⟨running_of_not hstopped, active, s.control, .inl rfl, ?_⟩
      rw [hself]
      dsimp only
      rw [hactive]

/-! ## Peers keep their paths -/

/-- The paths of all peers are as they should be. -/
def PathsDirect : Prop :=
  ∀ key peer, s.peers.lookup key = some peer → peer.path.Direct

variable {s}

theorem PathsDirect.insert (h : s.PathsDirect) {key : PublicKey} {peer : Peer}
    (hpeer : peer.path.Direct) : PathsDirect { s with peers := s.peers.insert key peer } := by
  intro other found hfound
  rw [Table.lookup_insert_if] at hfound
  split_ifs at hfound
  · cases hfound
    exact hpeer
  · exact h other found hfound

theorem PathsDirect.of_peers {s' : MobileRelay} (h : s.PathsDirect) (heq : s'.peers = s.peers) :
    s'.PathsDirect := by
  intro key peer hpeer
  rw [heq] at hpeer
  exact h key peer hpeer

theorem tickActive_peers (s : MobileRelay) {active : Active} (hactive : s.active = some active)
    (now : Nat) : (s.tickActive active now).peers = s.peers := by
  rcases s.tickActive_eq hactive now with ⟨-, _, _, _, _, _, -, heq⟩ | ⟨-, _, _, _, -, heq⟩
  · rw [heq]
  · rw [heq]

theorem tick_peers (s : MobileRelay) (now : Nat) : (s.tick now).peers = s.peers := by
  rcases s.tick_eq now with heq | ⟨-, active, control, -, heq⟩
  · rw [heq]
  · rw [heq]
    exact tickActive_peers _ rfl now

theorem inbound_peers (s : MobileRelay) (data : List UInt8) (link : Link) (endpoint : String)
    (now : Nat) : (s.inbound data link endpoint now).1.peers = s.peers := by
  unfold inbound
  split
  · rcases s.observed_eq link endpoint now with ⟨_, _, _, -, -, heq⟩ | heq | ⟨_, _, _, _, -, heq⟩
    · rw [heq]
    · rw [heq]
    · rw [heq]
  · rfl

theorem step_paths (h : s.PathsDirect) (call : MobileCall) : (s.step call).PathsDirect := by
  cases call with
  | configure token expiresAtUnix relays now =>
    obtain ⟨active, control, -, heq⟩ := s.configure_eq token expiresAtUnix relays now
    exact h.of_peers (by change (s.configure _ _ _ _).peers = _; rw [heq])
  | setPeer publicKey id hasDirect =>
    change (s.setPeer publicKey id hasDirect).PathsDirect
    unfold setPeer
    split
    · next peer hpeer =>
      exact h.insert (PeerPath.step_direct (h publicKey peer hpeer) (0, .setHasDirect hasDirect))
    · split_ifs
      · exact h
      · exact h.insert (PeerPath.new_direct hasDirect)
  | beginPeerRefresh =>
    intro key peer hpeer
    change (s.peers.mapValues _).lookup key = some peer at hpeer
    rw [Table.lookup_mapValues] at hpeer
    obtain ⟨old, hold, rfl⟩ := Option.map_eq_some_iff.mp hpeer
    exact h key old hold
  | endPeerRefresh =>
    intro key peer hpeer
    exact h key peer (Table.lookup_retain_eq_some.mp hpeer).1
  | outbound key now =>
    change (s.outbound key now).1.PathsDirect
    unfold outbound
    split
    · exact h
    · next peer hpeer =>
      exact h.insert (PeerPath.step_direct (h key peer hpeer) (now, .route s.relayReady))
  | directReceived key =>
    change (s.directReceived key).PathsDirect
    unfold directReceived
    split
    · exact h
    · next peer hpeer =>
      exact h.insert (PeerPath.step_direct (h key peer hpeer) (0, .directReceived))
  | inbound data link endpoint now => exact h.of_peers (s.inbound_peers data link endpoint now)
  | tick now => exact h.of_peers (s.tick_peers now)
  | poll => exact h

end MobileRelay

/-- In every run, a datagram for a known peer has a path when there is one: it is sent directly or
through the relay when the peer has a direct endpoint or a relay is ready; never directly without a
direct endpoint, and never through a relay when none is active.  A peer in direct mode has a direct
endpoint. -/
theorem outbound_paths (selfId : NodeId) (allowWss : Bool) (calls : List MobileCall) :
    let s := run step (.new selfId allowWss) calls
    ∀ key peer, s.peers.lookup key = some peer → ∀ now,
      ((peer.path.hasDirect ∨ s.relayReady) →
        (s.outbound key now).2.direct ∨ (s.outbound key now).2.relay.isSome) ∧
      ((s.outbound key now).2.direct → peer.path.hasDirect) ∧
      ((s.outbound key now).2.relay.isSome → s.active.isSome) ∧
      (peer.path.mode = .direct → peer.path.hasDirect) := by
  intro s key peer hpeer now
  have hstep : ∀ (s : MobileRelay) call, s.PathsDirect → (s.step call).PathsDirect :=
    fun _ call h => step_paths h call
  have hpaths : s.PathsDirect := run_invariant hstep calls nofun
  have hdirect := hpaths key peer hpeer
  obtain ⟨hsome, hdirectOnly, hready⟩ := PeerPath.route_paths hdirect now s.relayReady
  have hout : (s.outbound key now).2 =
      ⟨(peer.path.route now s.relayReady).2.direct,
        if (peer.path.route now s.relayReady).2.relay then s.activeLink else none⟩ := by
    unfold outbound
    rw [hpeer]
  have hlink : s.relayReady → s.activeLink.isSome := by
    intro h
    rw [relayReady, Bool.and_eq_true] at h
    rw [activeLink, Option.isSome_map]
    exact h.1
  rw [hout]
  refine ⟨fun hpath => ?_, hdirectOnly, fun hrelay => ?_, hdirect⟩
  · rcases hsome hpath with hroute | hroute
    · exact .inl hroute
    · right
      rw [if_pos hroute]
      exact hlink (hready hroute)
  · split_ifs at hrelay with hroute
    · rwa [activeLink, Option.isSome_map] at hrelay
    · cases hrelay

/-! ## What a call does to the active relay -/

/-- The list of the most recent `configure`. -/
def configured : List RelayOption → MobileCall → List RelayOption
  | _, .configure _ _ relays _ => relays
  | relays, _ => relays

/-- The entry of the list that an active relay stands for. -/
def Active.entry (active : Active) : String × Option String := (active.endpoint, active.wss)

namespace MobileRelay

/-- The relay whose timers a tick advances. -/
def Ticked (s : MobileRelay) (now : Nat) (active : Active) : Prop :=
  s.active = some active ∨ s.active = none ∧ s.Chosen now (some active)

/-- The active relay and the pending probe after a call. -/
inductive Moves (s : MobileRelay) : MobileCall → Option Active → Option Failback → Prop where
  | same {call : MobileCall} {active : Option Active}
      (hrelays : configured s.relays call = s.relays)
      (hentry : active.map Active.entry = s.active.map Active.entry) :
      Moves s call active s.failback
  | configured {active : Option Active} (token : Token) (expiresAtUnix : Nat)
      (relays : List RelayOption) (now : Nat)
        (hkeeps : Keeps s.allowWss relays s.active now active) :
      Moves s (.configure token expiresAtUnix relays now) active s.failback
  | answered (data : List UInt8) (link : Link) (endpoint : String) (now : Nat) (failback : Failback)
      (hobserved : (parseObserved data s.selfId).isSome)
      (hpending : s.failback = some failback)
      (hanswers : answersProbe failback link endpoint now) :
      Moves s (.inbound data link endpoint now)
        (some (fresh s.allowWss s.relays failback.endpoint now)) none
  | stopped (now : Nat) : Moves s (.tick now) none s.failback
  | timed (now : Nat) (ticked active : Active) (failback : Option Failback)
      (hrunning : s.Running) (hticked : s.Ticked now ticked) (hhealthy : healthy ticked now)
      (hentry : active.entry = ticked.entry)
      (hprobes : Probes s.relays ticked.endpoint s.failback failback) :
      Moves s (.tick now) (some active) failback
  | failedOver (now : Nat) (ticked : Active) (chosen : Option Active)
      (hrunning : s.Running) (hticked : s.Ticked now ticked) (hsilent : healthy ticked now = false)
      (hchosen : s.Chosen now chosen) :
      Moves s (.tick now) chosen s.failback

/-- What a call leaves: the platform's choice, the list, and what `Moves` allows. -/
structure Does (s : MobileRelay) (call : MobileCall) (s' : MobileRelay) : Prop where
  allowWss : s'.allowWss = s.allowWss
  relays : s'.relays = configured s.relays call
  moves : Moves s call s'.active s'.failback

variable {s : MobileRelay}

/-- Calls that leave the relay session alone. -/
theorem Does.of_eq {call : MobileCall} {s' : MobileRelay} (hallow : s'.allowWss = s.allowWss)
    (hrelays : s'.relays = s.relays) (hactive : s'.active = s.active)
    (hfailback : s'.failback = s.failback) (hcall : configured s.relays call = s.relays) :
    Does s call s' := by
  refine ⟨hallow, hrelays.trans hcall.symm, ?_⟩
  rw [hfailback]
  exact .same hcall (by rw [hactive])

variable (s)

theorem inbound_does (data : List UInt8) (link : Link) (endpoint : String) (now : Nat) :
    Does s (.inbound data link endpoint now) (s.inbound data link endpoint now).1 := by
  unfold inbound
  split
  · next hobserved =>
    rcases s.observed_eq link endpoint now with
      ⟨failback, _, _, hpending, hanswers, heq⟩ | heq | ⟨active, _, _, _, hactive, heq⟩
    · rw [heq]
      exact ⟨rfl, rfl, .answered data link endpoint now failback hobserved hpending hanswers⟩
    · rw [heq]
      exact .of_eq rfl rfl rfl rfl rfl
    · rw [heq]
      refine ⟨rfl, rfl, .same rfl ?_⟩
      rw [hactive]
      rfl
  · exact .of_eq rfl rfl rfl rfl rfl

theorem tick_does (now : Nat) : Does s (.tick now) (s.tick now) := by
  rcases s.tick_eq now with heq | ⟨hrunning, ticked, control, hticked, heq⟩
  · rw [heq]
    exact ⟨rfl, rfl, .stopped now⟩
  · rw [heq]
    rcases tickActive_eq { s with active := some ticked, control := control } rfl now with
      ⟨hhealthy, _, _, failback, _, _, hprobes, hdone⟩ | ⟨hsilent, chosen, _, _, hchosen, hdone⟩
    · rw [hdone]
      exact ⟨rfl, rfl, .timed now ticked _ failback hrunning hticked hhealthy rfl hprobes⟩
    · rw [hdone]
      exact ⟨rfl, rfl, .failedOver now ticked chosen hrunning hticked hsilent hchosen⟩

theorem step_does (call : MobileCall) : Does s call (s.step call) := by
  cases call with
  | configure token expiresAtUnix relays now =>
    obtain ⟨active, control, hkeeps, heq⟩ := s.configure_eq token expiresAtUnix relays now
    rw [show s.step (.configure token expiresAtUnix relays now) = _ from heq]
    exact ⟨rfl, rfl, .configured token expiresAtUnix relays now hkeeps⟩
  | setPeer publicKey id hasDirect =>
    change Does s _ (s.setPeer publicKey id hasDirect)
    unfold setPeer
    split
    · exact .of_eq rfl rfl rfl rfl rfl
    · split_ifs
      · exact .of_eq rfl rfl rfl rfl rfl
      · exact .of_eq rfl rfl rfl rfl rfl
  | beginPeerRefresh | endPeerRefresh => exact .of_eq rfl rfl rfl rfl rfl
  | outbound peer now =>
    change Does s _ (s.outbound peer now).1
    unfold outbound
    split
    · exact .of_eq rfl rfl rfl rfl rfl
    · exact .of_eq rfl rfl rfl rfl rfl
  | directReceived peer =>
    change Does s _ (s.directReceived peer)
    unfold directReceived
    split
    · exact .of_eq rfl rfl rfl rfl rfl
    · exact .of_eq rfl rfl rfl rfl rfl
  | inbound data link endpoint now => exact s.inbound_does data link endpoint now
  | tick now => exact s.tick_does now
  | poll => exact .of_eq rfl rfl rfl rfl rfl

/-- The session keeps the list of the most recent `configure`. -/
theorem run_relays (calls : List MobileCall) :
    (run step s calls).relays = calls.foldl configured s.relays :=
  (List.foldl_hom relays fun s call => (s.step_does call).relays.symm).symm

theorem run_allowWss (calls : List MobileCall) : (run step s calls).allowWss = s.allowWss := by
  induction calls generalizing s with
  | nil => rfl
  | cons call calls ih => rw [run_cons, ih, (s.step_does call).allowWss]

end MobileRelay

/-! ## The active relay is listed -/

/-- An active relay is an entry of the list, with the WebSocket of that entry. -/
def Listed (allowWss : Bool) (relays : List RelayOption) (active : Option Active) : Prop :=
  ∀ a, active = some a → ∃ relay, listed relays a.endpoint = some relay ∧
    a.wss = wssOf allowWss relay

variable {endpoint : String} {allowWss : Bool} {relays : List RelayOption} {now : Nat}

theorem listed_of_mem {relays : List RelayOption} (h : endpoint ∈ endpoints relays) :
    ∃ relay, listed relays endpoint = some relay := by
  obtain ⟨relay, hmem, rfl⟩ := List.mem_map.mp h
  apply Option.isSome_iff_exists.mp
  rw [listed, List.find?_isSome]
  exact ⟨relay, hmem, decide_eq_true rfl⟩

theorem mem_of_listed {relays : List RelayOption} {relay : RelayOption}
    (h : listed relays endpoint = some relay) : endpoint ∈ endpoints relays := by
  have hendpoint : relay.endpoint = endpoint := by simpa using List.find?_some h
  rw [← hendpoint]
  exact List.mem_map_of_mem (List.mem_of_find?_eq_some h)

theorem listed_fresh (h : endpoint ∈ endpoints relays) (now : Nat) :
    Listed allowWss relays (some (fresh allowWss relays endpoint now)) := by
  intro a ha
  cases ha
  obtain ⟨relay, hrelay⟩ := listed_of_mem h
  refine ⟨relay, hrelay, ?_⟩
  change (listed relays endpoint).bind (wssOf allowWss) = wssOf allowWss relay
  rw [hrelay, Option.bind_some]

/-- Only the entry of the active relay matters. -/
theorem Listed.of_entry {active active' : Option Active} (h : Listed allowWss relays active)
    (hentry : active'.map Active.entry = active.map Active.entry) :
    Listed allowWss relays active' := by
  intro a' ha'
  rw [ha', Option.map_some] at hentry
  obtain ⟨a, ha, hsame⟩ := Option.map_eq_some_iff.mp hentry.symm
  obtain ⟨hendpoint, hwss⟩ := Prod.mk.inj hsame
  obtain ⟨relay, hrelay, hlist⟩ := h a ha
  exact ⟨relay, by rw [← hendpoint]; exact hrelay, by rw [← hwss]; exact hlist⟩

theorem MobileRelay.Keeps.listed {before active : Option Active}
    (h : Keeps allowWss relays before now active) : Listed allowWss relays active := by
  cases h with
  | kept a relay ladder hbefore hlisted =>
    intro b hb
    cases hb
    exact ⟨relay, hlisted, rfl⟩
  | chosen hgone endpoint hmem => exact listed_fresh hmem now
  | none hgone => exact nofun

variable {s : MobileRelay}

theorem MobileRelay.Chosen.listed {active : Option Active} (h : s.Chosen now active) :
    Listed s.allowWss s.relays active := by
  rcases h with rfl | ⟨endpoint, hmem, rfl⟩
  · exact nofun
  · exact listed_fresh hmem now

theorem MobileRelay.Ticked.listed {active : Active} (h : s.Ticked now active)
    (hlisted : Listed s.allowWss s.relays s.active) : Listed s.allowWss s.relays (some active) := by
  rcases h with hactive | ⟨-, hchosen⟩
  · rwa [hactive] at hlisted
  · exact hchosen.listed

/-- The active relay is an entry of the list in force. -/
def MobileRelay.ActiveListed (s : MobileRelay) : Prop := Listed s.allowWss s.relays s.active

/-- The answer to a fail-back probe arrives while the probed relay is in the list. -/
def AnswerListed (s : MobileRelay) : MobileCall → Prop
  | .inbound data link endpoint now =>
    (parseObserved data s.selfId).isSome → ∀ failback ∈ s.failback,
      answersProbe failback link endpoint now →
        failback.endpoint ∈ endpoints s.relays
  | _ => True

instance (s : MobileRelay) : DecidablePred (AnswerListed s)
  | .inbound _ _ _ _ => inferInstanceAs (Decidable (_ → _))
  | .configure _ _ _ _ | .setPeer _ _ _ | .beginPeerRefresh | .endPeerRefresh | .outbound _ _
  | .directReceived _ | .tick _ | .poll => isTrue trivial

theorem MobileRelay.Does.listed {s' : MobileRelay} {call : MobileCall} (h : Does s call s')
    (hcall : AnswerListed s call) (hlisted : s.ActiveListed) : s'.ActiveListed := by
  obtain ⟨hallow, hrelays, hmoves⟩ := h
  unfold ActiveListed
  rw [hallow, hrelays]
  generalize s'.active = active, s'.failback = failback at hmoves
  cases hmoves with
  | same hcall hentry =>
    rw [hcall]
    exact hlisted.of_entry hentry
  | configured token expiresAtUnix relays now hkeeps => exact hkeeps.listed
  | answered data link endpoint now failback hobserved hpending hanswers =>
    exact listed_fresh (hcall hobserved failback hpending hanswers) now
  | stopped now => exact nofun
  | timed now ticked active failback hrunning hticked hhealthy hentry hprobes =>
    refine (hticked.listed hlisted).of_entry ?_
    rw [Option.map_some, Option.map_some, hentry]
  | failedOver now ticked chosen hrunning hticked hsilent hchosen => exact hchosen.listed

theorem MobileRelay.fromActive_udp :
    s.fromActive .udp endpoint ↔ ∃ active, s.active = some active ∧
      active.endpoint = endpoint := by
  rw [fromActive, Option.any_eq_true]
  exact exists_congr fun active => and_congr Iff.rfl decide_eq_true_iff

/-- Only the active relay delivers. -/
theorem MobileRelay.fromActive_of_delivered {data : List UInt8} {link : Link}
    {delivered : PublicKey × List UInt8}
    (h : (s.inbound data link endpoint now).2 = some delivered) :
    s.fromActive link endpoint := by
  unfold inbound at h
  split at h
  · cases h
  · obtain ⟨forwarded, -, hread⟩ := Option.bind_eq_some_iff.mp h
    dsimp only at hread
    split at hread
    · next hfrom => exact hfrom
    · cases hread

/-- In every run in which no withdrawn relay answers a fail-back probe, the active relay is an entry
of the list of the most recent `configure`, with the WebSocket of that entry; so a datagram is
accepted over UDP only from a relay of that list. -/
theorem active_listed (selfId : NodeId) (allowWss : Bool) (calls : List MobileCall)
    (hcalls : Along step AnswerListed (.new selfId allowWss) calls) :
    let s := run step (.new selfId allowWss) calls
    let relays := calls.foldl configured []
    (∀ active, s.active = some active → ∃ relay, listed relays active.endpoint = some relay ∧
      active.wss = wssOf allowWss relay) ∧
    ∀ data endpoint now delivered, (s.inbound data .udp endpoint now).2 = some delivered →
      endpoint ∈ endpoints relays := by
  intro s relays
  have hstep : ∀ (s : MobileRelay) call, AnswerListed s call → s.ActiveListed →
      (s.step call).ActiveListed := fun s call hcall h => (s.step_does call).listed hcall h
  have hlisted : s.ActiveListed :=
    run_invariant_along hstep hcalls nofun
  have hrelays : s.relays = relays := run_relays _ calls
  have hallow : s.allowWss = allowWss := run_allowWss _ calls
  unfold ActiveListed at hlisted
  rw [hrelays, hallow] at hlisted
  refine ⟨hlisted, fun data endpoint now delivered hdelivered => ?_⟩
  obtain ⟨active, hactive, rfl⟩ := fromActive_udp.mp
    (fromActive_of_delivered hdelivered)
  obtain ⟨relay, hrelay, -⟩ := hlisted active hactive
  exact mem_of_listed hrelay

/-! A session with two relays: the first one stays silent, so the second becomes active, answers,
and the first one is probed once its back-off is over. -/

def phone : NodeId := ⟨List.replicate ID_LEN 1, List.length_replicate⟩
def desk : NodeId := ⟨List.replicate ID_LEN 2, List.length_replicate⟩
def capability : Token := ⟨List.replicate TOKEN_LEN 7, List.length_replicate⟩
def deskKey : PublicKey := 2

def sydney : RelayOption := ⟨"syd:3478", "syd", some "wss://syd"⟩
def perth : RelayOption := ⟨"per:3478", "per", none⟩

def observation : List UInt8 := observedFrame phone ⟨.v4 0x01020304, 4000⟩

def probing : List MobileCall :=
  [.configure capability 1000 [sydney, perth] 0, .setPeer deskKey desk false, .tick (secs 35),
    .inbound observation .udp "per:3478" (secs 36), .tick (secs 65)]

/-- The probe is answered: the first relay is active again. -/
theorem active_listed_answered :
    let calls := probing ++ [.inbound observation .udp "syd:3478" (secs 70)]
    let s := run step (.new phone true) calls
    s.active.map Active.entry = some ("syd:3478", some "wss://syd") ∧
      ∀ active, s.active = some active → ∃ relay,
        listed [sydney, perth] active.endpoint = some relay ∧ active.wss = wssOf true relay :=
  ⟨by decide +kernel, (active_listed phone true _ (by decide +kernel)).1⟩

/-- The list no longer has the probed relay when its answer arrives: it becomes active, and what it
forwards is delivered. -/
theorem withdrawn_relay_active :
    let calls := probing ++ [.configure capability 1000 [perth] (secs 70),
      .inbound observation .udp "syd:3478" (secs 71)]
    let s := run step (.new phone true) calls
    calls.foldl configured [] = [perth] ∧
      s.active.map Active.endpoint = some "syd:3478" ∧
      (s.inbound (forwardedFrame desk [9]) .udp "syd:3478" (secs 72)).2 = some (deskKey, [9]) := by
  decide +kernel

/-! ## The pending probe -/

/-- A relay comes before another in the list. -/
def Precedes (relays : List RelayOption) (endpoint active : String) : Prop :=
  active ∈ endpoints relays ∧ endpoint ∈ (endpoints relays).takeWhile (· ≠ active)

/-- While a probe is pending, `configure` keeps the active relay in the list, with the probed one
before it, and `tick` finds the active relay alive unless there is nothing to register with. -/
def KeepsOrder (s : MobileRelay) : MobileCall → Prop
  | .configure _ _ relays _ => ∀ failback ∈ s.failback, ∃ active ∈ s.active,
      Precedes relays failback.endpoint active.endpoint
  | .tick now => ∀ _ ∈ s.failback, s.Running →
      ∃ active ∈ s.active, healthy active now
  | _ => True

instance (relays : List RelayOption) (endpoint active : String) :
    Decidable (Precedes relays endpoint active) :=
  inferInstanceAs (Decidable (_ ∧ _))

instance (s : MobileRelay) : Decidable s.Running := inferInstanceAs (Decidable (_ ∧ _))

instance (s : MobileRelay) : DecidablePred (KeepsOrder s)
  | .configure _ _ _ _ | .tick _ => inferInstanceAs (Decidable (∀ _ ∈ _, _))
  | .setPeer _ _ _ | .beginPeerRefresh | .endPeerRefresh | .outbound _ _ | .directReceived _
  | .inbound _ _ _ _ | .poll => isTrue trivial

namespace MobileRelay

variable {s : MobileRelay} {failback : Failback} {now : Nat} {endpoint : String}

/-- The probed relay is listed, before the active one. -/
structure Probed (relays : List RelayOption) (active : Option Active) (failback : Option Failback) :
    Prop where
  listed : ∀ f ∈ failback, f.endpoint ∈ endpoints relays
  before : ∀ f ∈ failback, ∀ a ∈ active,
    f.endpoint ∈ (endpoints relays).takeWhile (· ≠ a.endpoint)

structure ProbeOrder (s : MobileRelay) : Prop where
  listed : s.ActiveListed
  probed : Probed s.relays s.active s.failback

theorem ProbeOrder.precedes (h : s.ProbeOrder) {active : Active}
    (hpending : s.failback = some failback) (hactive : s.active = some active) :
    Precedes s.relays failback.endpoint active.endpoint := by
  obtain ⟨relay, hrelay, -⟩ := h.listed active hactive
  exact ⟨mem_of_listed hrelay, h.probed.before failback hpending active hactive⟩

/-- An answer to a probe is then one of a listed relay. -/
theorem ProbeOrder.answerListed (h : s.ProbeOrder) (call : MobileCall) : AnswerListed s call := by
  cases call with
  | inbound data link endpoint now =>
    exact fun _ failback hpending _ => h.probed.listed failback hpending
  | _ => trivial

/-- While a probe is pending, a tick is of the active relay, which is alive. -/
theorem Ticked.alive {ticked : Active} (h : s.Ticked now ticked) (hrunning : s.Running)
    (hpending : failback ∈ s.failback) (hcall : KeepsOrder s (.tick now)) :
    s.active = some ticked ∧ healthy ticked now := by
  obtain ⟨active, hactive, hhealthy⟩ := hcall failback hpending hrunning
  rcases h with hticked | ⟨hnone, -⟩
  · cases hactive.symm.trans hticked
    exact ⟨hticked, hhealthy⟩
  · rw [hnone] at hactive
    cases hactive

/-- With a probe pending, a new list keeps the active relay. -/
theorem Keeps.precedes {before active : Option Active}
    (h : Keeps allowWss relays before now active)
    (hbefore : ∃ a ∈ before, Precedes relays endpoint a.endpoint) {a : Active}
    (ha : active = some a) : Precedes relays endpoint a.endpoint := by
  obtain ⟨b, hb, hprecedes⟩ := hbefore
  have hkept : ¬∀ a, before = some a → Relay.listed relays a.endpoint = Option.none := by
    intro hgone
    obtain ⟨relay, hrelay⟩ := listed_of_mem hprecedes.1
    rw [hgone b hb] at hrelay
    cases hrelay
  cases h with
  | kept c relay ladder hc hlisted =>
    cases hb.symm.trans hc
    cases ha
    exact hprecedes
  | chosen hgone endpoint hmem | none hgone => exact absurd hgone hkept

theorem Does.probeOrder {s' : MobileRelay}
    {call : MobileCall} (h : Does s call s') (hcall : KeepsOrder s call)
    (horder : s.ProbeOrder) : s'.ProbeOrder := by
  refine ⟨h.listed (horder.answerListed call) horder.listed, ?_⟩
  obtain ⟨-, hrelays, hmoves⟩ := h
  rw [hrelays]
  generalize s'.active = active, s'.failback = failback at hmoves
  cases hmoves with
  | same hcall hentry =>
    rw [hcall]
    refine ⟨horder.probed.listed, fun failback hpending active' hactive' => ?_⟩
    rw [hactive'] at hentry
    obtain ⟨active, hactive, hsame⟩ := Option.map_eq_some_iff.mp hentry.symm
    rw [← (Prod.mk.inj hsame).1]
    exact horder.probed.before failback hpending active hactive
  | configured token expiresAtUnix relays now hkeeps =>
    refine ⟨fun failback hpending => ?_, fun failback hpending active hactive => ?_⟩
    · obtain ⟨active, -, hmem, hbefore⟩ := hcall failback hpending
      exact List.takeWhile_subset _ hbefore
    · exact (hkeeps.precedes (hcall failback hpending) hactive).2
  | answered data link endpoint now failback hobserved hpending hanswers =>
    exact ⟨fun _ h => (nomatch h), fun _ h => (nomatch h)⟩
  | stopped now => exact ⟨horder.probed.listed, nofun⟩
  | timed now ticked active failback hrunning hticked hhealthy hentry hprobes =>
    have hendpoint : active.endpoint = ticked.endpoint := (Prod.mk.inj hentry).1
    have hbefore : ∀ f ∈ failback,
        f.endpoint ∈ (endpoints s.relays).takeWhile (· ≠ ticked.endpoint) := by
      intro f hf
      cases hprobes with
      | same =>
        exact horder.probed.before f hf ticked (hticked.alive hrunning hf hcall).1
      | expired => cases hf
      | sent hnone target deadline htarget =>
        cases hf
        exact htarget
    refine ⟨fun f hf => List.takeWhile_subset _ (hbefore f hf), fun f hf active' hactive' => ?_⟩
    cases hactive'
    rw [hendpoint]
    exact hbefore f hf
  | failedOver now ticked chosen hrunning hticked hsilent hchosen =>
    -- a relay is given up only while no probe is pending
    refine ⟨horder.probed.listed, fun f hf => ?_⟩
    have halive := (hticked.alive hrunning hf hcall).2
    rw [hsilent] at halive
    cases halive

/-! ## What becomes of the probe -/

section

variable (hpending : s.failback = some failback)
include hpending

theorem observed_answered {link : Link}
    (hanswers : answersProbe failback link endpoint now) :
    (s.observed link endpoint now).active =
      some (fresh s.allowWss s.relays failback.endpoint now) := by
  unfold observed
  rw [hpending, Option.filter_some, if_pos hanswers]
  obtain ⟨control, heq⟩ := activate_eq
    { s with
      failback := none
      selector := (s.selector.recordHealthy failback.endpoint).noteFailback }
    failback.endpoint now
  dsimp only
  rw [heq]

theorem tickFailback_failures (active : Active) (now : Nat) (hne : endpoint ≠ failback.endpoint) :
    (s.tickFailback active now).selector.failures.lookup endpoint =
      s.selector.failures.lookup endpoint := by
  unfold tickFailback
  rw [hpending]
  dsimp only
  split_ifs
  · rw [Selector.recordFailure, Table.lookup_insert_if, if_neg hne]
  · rfl

/-- A tick of a relay that is alive counts a failure of the probed relay only. -/
theorem tick_failures {active : Active} (hactive : s.active = some active)
    (hhealthy : healthy active now) (hne : endpoint ≠ failback.endpoint) :
    (s.tick now).selector.failures.lookup endpoint = s.selector.failures.lookup endpoint := by
  unfold tick
  split
  · rfl
  · rw [hactive, Option.isNone_some, if_neg Bool.false_ne_true]
    dsimp only
    rw [hactive]
    dsimp only
    rw [tickActive, if_pos hhealthy]
    obtain ⟨ladder, roundEnds, control, heq⟩ := s.endRound_eq hactive now
    rw [heq]
    rw [tickFailback_failures (by exact hpending) active now hne]

end

end MobileRelay

/-- In every run in which a pending probe sees the list keep its order and the active relay alive,
the probed relay comes before the active one in the list of the most recent `configure`.  So a probe
that runs out is no failure of the active relay, and one that is answered does not restart it. -/
theorem probe_precedes (selfId : NodeId) (allowWss : Bool) (calls : List MobileCall)
    (hcalls : Along step KeepsOrder (.new selfId allowWss) calls) :
    let s := run step (.new selfId allowWss) calls
    let relays := calls.foldl configured []
    ∀ failback active, s.failback = some failback → s.active = some active →
      failback.endpoint ≠ active.endpoint ∧
      Precedes relays failback.endpoint active.endpoint ∧
      (∀ now, healthy active now →
        (s.tick now).selector.failures.lookup active.endpoint =
          s.selector.failures.lookup active.endpoint) ∧
      ∀ link endpoint now, answersProbe failback link endpoint now →
        ∀ next, (s.observed link endpoint now).active = some next →
          next.endpoint ≠ active.endpoint := by
  intro s relays failback active hpending hactive
  have hstep : ∀ (s : MobileRelay) call, KeepsOrder s call → s.ProbeOrder →
      (s.step call).ProbeOrder := fun s call hcall h => (s.step_does call).probeOrder hcall h
  have horder : s.ProbeOrder :=
    run_invariant_along hstep hcalls
      ⟨fun _ h => (nomatch h), fun _ h => (nomatch h), fun _ h => (nomatch h)⟩
  have hrelays : s.relays = relays := run_relays _ calls
  have hprecedes := horder.precedes hpending hactive
  have hne : failback.endpoint ≠ active.endpoint := by
    simpa using List.mem_takeWhile_imp hprecedes.2
  rw [hrelays] at hprecedes
  refine ⟨hne, hprecedes, fun now hhealthy => ?_, fun link endpoint now hanswers next hnext => ?_⟩
  · exact tick_failures hpending hactive hhealthy hne.symm
  · rw [observed_answered hpending hanswers] at hnext
    cases hnext
    exact hne

/-- While the second relay is alive, the probe of the first one runs out at its expense. -/
theorem probe_precedes_probing :
    let s := run step (.new phone true) probing
    s.failback.map Failback.endpoint = some "syd:3478" ∧
      ∀ failback active, s.failback = some failback → s.active = some active →
        failback.endpoint ≠ active.endpoint :=
  ⟨by decide +kernel, fun failback active hpending hactive =>
    (probe_precedes phone true probing (by decide +kernel) failback active hpending hactive).1⟩

/-- The second relay falls silent while the first is probed.  The first becomes active, the probe of
it stays pending, and when it runs out that is a failure of the active relay. -/
theorem probed_relay_active :
    let calls := [.configure capability 1000 [sydney, perth] 0, .tick (secs 35),
      .inbound observation .udp "per:3478" (secs 36), .tick (secs 80), .tick (secs 86)]
    let s := run step (.new phone true) calls
    s.failback.map Failback.endpoint = some "syd:3478" ∧
      s.active.map Active.endpoint = some "syd:3478" ∧
      (s.selector.failures.lookup "syd:3478").map Failure.strikes = some 1 ∧
      (s.tick (secs 90)).active.map Active.endpoint = some "syd:3478" ∧
      ((s.tick (secs 90)).selector.failures.lookup "syd:3478").map Failure.strikes = some 2 := by
  decide +kernel

end BlakTail.Relay
