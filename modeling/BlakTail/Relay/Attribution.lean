import BlakTail.Relay.Hub
import BlakTail.Relay.Queue

/-!
# A Session and the Hub

One mobile session composed with the hub of a relay.  Frames travel on two paths, UDP and one
WebSocket connection; each path loses nothing and keeps its order, and may be as slow as it likes.
Other clients of the hub go about their business, but nobody else holds this client's capability.

The condition cannot be dropped: while the ladder waits on the WebSocket for UDP to answer three
rounds, the session registers over UDP only, and what it sends on the WebSocket is refused.
-/

namespace BlakTail.Relay

open Foundation

/-! ## The composition -/

/-- A client's place at a relay: its id, the relay's endpoint, and the client's two addresses. -/
structure Attachment where
  id : NodeId
  endpoint : String
  address : SocketAddr
  stream : Nat

/-- Where the hub sees a frame of a link come from. -/
def Attachment.source (home : Attachment) : Link → PeerAddr
  | .udp => .udp home.address
  | .wss => .stream home.stream

/-- The link a packet for the client leaves on. -/
def Attachment.linkTo (home : Attachment) (address : PeerAddr) : Option Link :=
  if address = home.source .udp then some .udp
  else if address = home.source .wss then some .wss
  else none

structure Session where
  client : MobileRelay
  hub : Hub
  /-- Frames on their way to the hub, in the order sent. -/
  flight : List Flying := []
  /-- Packets on their way to the client, in the order sent. -/
  replies : List Flying := []

inductive SessionEvent where
  /-- The platform calls the session; a polled frame is sent. -/
  | call (call : MobileCall)
  /-- The platform routes a datagram and sends what goes through the relay. -/
  | send (peer : PublicKey) (payload : List UInt8) (now : Nat)
  /-- The oldest frame of a path reaches the hub. -/
  | deliver (link : Link) (clock : Clock)
  /-- The oldest packet of a path reaches the client. -/
  | reply (link : Link) (now : Nat)
  /-- Something else happens at the hub. -/
  | other (event : HubEvent)

variable (mac : List UInt8 → NodeId → Nat → Token) (home : Attachment) {older : List Flying}
  {known : Option Link}

/-- What a hub sends when an event is taken up. -/
def Hub.sent (hub : Hub) : HubEvent → Option Packet
  | .received data source clock => (hub.handle mac data (.udp source) clock).2
  | .frame id data clock => (hub.handle mac data (.stream id) clock).2
  | .opened _ _ | .closed _ | .reap _ => none

/-- A packet, if it goes to the client. -/
def Attachment.answer (packet : Option Packet) : List Flying :=
  (do let (address, data) ← packet
      let link ← home.linkTo address
      return ⟨link, data⟩ : Option Flying).toList

namespace Session

variable (s : Session)

/-- A frame that `poll` hands out for this relay. -/
def polled : MobileCall → List Flying
  | .poll => toward home.endpoint s.client.poll.2.toList
  | _ => []

/-- The SEND frame of a datagram that goes through this relay. -/
def sending (peer : PublicKey) (payload : List UInt8) (now : Nat) : Option Flying := do
  let link ← (s.client.outbound peer now).2.relay
  let id ← s.client.peerId peer
  let active ← s.client.active
  let data ← sendFrame id payload
  if active.endpoint = home.endpoint then some ⟨link, data⟩ else none

def next (link : Link) : Option Flying := s.flight.find? fun frame => frame.link = link

/-- The calls of the platform, the SEND frames of the client, and the arrivals at both ends. -/
def step : SessionEvent → Session
  | .call call =>
    { s with
      client := s.client.step call
      flight := s.flight ++ s.polled home call }
  | .send peer payload now =>
    { s with
      client := (s.client.outbound peer now).1
      flight := s.flight ++ (s.sending home peer payload now).toList }
  | .deliver link clock =>
    match s.next link with
    | none => s
    | some frame =>
      let (hub, packet) := s.hub.handle mac frame.data (home.source link) clock
      { s with
        hub := hub
        flight := s.flight.eraseP fun frame => frame.link = link
        replies := s.replies ++ home.answer packet }
  | .reply link now =>
    match s.replies.find? fun frame => frame.link = link with
    | none => s
    | some frame =>
      { s with
        client := (s.client.inbound frame.data link home.endpoint now).1
        replies := s.replies.eraseP fun frame => frame.link = link }
  | .other event =>
    -- nobody else can register the client's id
    if (s.hub.accepted mac event).map Prod.fst = some home.id then s
    else
      { s with
        hub := s.hub.step mac event
        replies := s.replies ++ home.answer (s.hub.sent mac event) }

def start (allowWss : Bool) (config : HubConfig) : Session :=
  { client := .new home.id allowWss, hub := { config := config } }

/-! ## The condition -/

/-- The frames that were sent before the oldest of a path and are still on their way. -/
def overtaken (link : Link) : List Flying := s.flight.takeWhile fun frame => frame.link ≠ link

/-- The queue has room for what any call adds. -/
def Room : Prop := s.client.control.length + MobileRelay.MAX_CALL_QUEUES ≤ MAX_QUEUED_CONTROL

/-- The client sends with an empty queue, and on the link it registered over last. -/
def SendsRegistered : Prop :=
  s.client.control = [] ∧
    ∀ active ∈ s.client.active, ¬(active.ladder.link = .wss ∧ active.ladder.udpProven)

/-- A frame arrives before what was sent after it, as far as REGISTER frames are concerned. -/
def KeepsOrder (link : Link) (frame : Flying) : Prop :=
  s.overtaken link = [] ∨
    frame.isRegister = false ∧ ∀ older ∈ s.overtaken link, older.isRegister = false

/-- The hub accepts the client's REGISTER: within the rate of its source, with a capability that
is valid and has not expired. -/
def Registers (link : Link) (frame : Flying) (clock : Clock) : Prop :=
  frame.isRegister →
    (s.hub.accepts mac frame.data (home.source link) clock).map Prod.fst = some home.id

/-- What a step asks of the platform and of the network. -/
def Regular : SessionEvent → Prop
  | .call .poll => True
  | .call (.configure token expiresAtUnix relays _) =>
    s.Room ∧ (s.client.Withdraws relays →
      token ≠ s.client.token ∨ expiresAtUnix ≠ s.client.expiresAtUnix)
  | .call _ => s.Room
  | .send _ _ _ => s.SendsRegistered
  | .deliver link clock =>
    ∀ frame ∈ s.next link, s.KeepsOrder link frame ∧ s.Registers mac home link frame clock
  | .reply _ _ => s.Room
  | .other _ => True

end Session

variable {mac home}

/-! ## Frames in flight -/

/-- Every SEND frame goes over the link of the last REGISTER before it. -/
def Attributable : Option Link → List Flying → Prop
  | _, [] => True
  | known, frame :: frames =>
    (frame.isSend → known = some frame.link) ∧
      Attributable (lastRegister known [frame]) frames

theorem attributable_append {newer : List Flying} :
    Attributable known (older ++ newer) ↔
      Attributable known older ∧ Attributable (lastRegister known older) newer := by
  induction older generalizing known with
  | nil => exact ⟨fun h => ⟨trivial, h⟩, fun h => h.2⟩
  | cons frame older ih =>
    rw [List.cons_append, Attributable, Attributable, ih, and_assoc]
    rfl

/-- Frames that carry no SEND are attributable. -/
theorem attributable_others {known : Option Link} {frames : List Flying}
    (h : ∀ frame ∈ frames, frame.isSend = false) : Attributable known frames := by
  induction frames generalizing known with
  | nil => trivial
  | cons frame frames ih =>
    obtain ⟨hother, hrest⟩ := List.forall_mem_cons.mp h
    exact ⟨fun hsend => absurd hsend (Bool.eq_false_iff.mp hother), ih hrest⟩

/-- A frame that arrives in order leaves the rest attributable; `known` moves with a REGISTER. -/
theorem arrives {newer : List Flying} {frame : Flying}
    (horder : older = [] ∨ frame.isRegister = false ∧ ∀ before ∈ older, before.isRegister = false)
    (h : Attributable known (older ++ frame :: newer)) (queued : List Flying) :
    Attributable (lastRegister known [frame]) (older ++ newer) ∧
      lastRegister (lastRegister known [frame]) (older ++ newer ++ queued) =
        lastRegister known (older ++ frame :: newer ++ queued) ∧
      (frame.isSend → known = some frame.link) := by
  obtain ⟨holder, hsend, hnewer⟩ := attributable_append.mp h
  rcases horder with rfl | ⟨hother, hothers⟩
  · refine ⟨hnewer, ?_, hsend⟩
    rfl
  · have hsame : lastRegister known [frame] = known := lastRegister_cons_other hother
    have hpassed : lastRegister known older = known := lastRegister_others hothers
    rw [hpassed] at hsend
    rw [hpassed, hsame] at hnewer
    rw [hsame]
    refine ⟨attributable_append.mpr ⟨holder, by rw [hpassed]; exact hnewer⟩, ?_, hsend⟩
    rw [List.append_assoc, List.append_assoc, lastRegister_append, lastRegister_append known older,
      List.cons_append, lastRegister_cons_other hother]

/-! ## The invariant -/

/-- `known` is the link of the client's last REGISTER that the hub handled. -/
structure SessionInv (home : Attachment) (known : Option Link) (s : Session) : Prop where
  injective : s.hub.Injective
  registered : ∀ client, s.hub.clients.lookup home.id = some client →
    ∃ link, known = some link ∧ client.addr = home.source link
  flight : Attributable known s.flight
  noSends : NoSends s.client.control
  queued : ∀ active, s.client.active = some active → active.endpoint = home.endpoint →
    s.client.expiresAtUnix ≠ 0 →
    lastRegister known (s.flight ++ toward home.endpoint s.client.control) =
      some (MobileRelay.registerLink active)

/-- What the session has sent stays attributable over a call that adds to the queue. -/
theorem SessionInv.queues {s : Session} {client : MobileRelay} {n : Nat} {replies : List Flying}
    (h : SessionInv home known s) (hqueues : MobileRelay.Queues n s.client client) :
    SessionInv home known { s with client := client, replies := replies } := by
  obtain ⟨queued, hcontrol, -, hsends, hcovers⟩ := hqueues
  refine ⟨h.injective, h.registered, h.flight, ?_, fun active hactive hendpoint hlive => ?_⟩
  · rw [hcontrol]
    exact h.noSends.append hsends
  rw [hcontrol, toward_append, ← List.append_assoc, lastRegister_append, ← hendpoint]
  rcases hcovers active hactive hlive with
    hlast | ⟨hnothing, hlive', before, hbefore, hsame, hlink⟩
  · exact hlast _
  · rw [hnothing, ← hlink, hendpoint]
    exact h.queued before hbefore (hsame.trans hendpoint) hlive'

namespace MobileRelay

theorem control_poll (client : MobileRelay) :
    client.control = client.poll.2.toList ++ client.poll.1.control := by
  change client.control = client.control.head?.toList ++ client.control.tail
  cases client.control with
  | nil | cons control queue => rfl

/-- A datagram goes through the relay on the link of the active relay, when one is ready. -/
theorem outbound_relay {client : MobileRelay} {peer : PublicKey} {now : Nat} {link : Link}
    (h : (client.outbound peer now).2.relay = some link) :
    client.expiresAtUnix ≠ 0 ∧ ∃ active, client.active = some active ∧
      active.ladder.link = link := by
  unfold outbound at h
  split at h
  · exact nomatch h
  · next state hstate =>
    dsimp only at h
    split_ifs at h with hrelay
    have hready : client.relayReady := by
      cases hready : client.relayReady with
      | true => rfl
      | false =>
        rw [hready] at hrelay
        exact nomatch hrelay
    rw [relayReady, Bool.and_eq_true, decide_eq_true_iff] at hready
    exact ⟨Nat.ne_of_gt hready.2, Option.map_eq_some_iff.mp h⟩

end MobileRelay

open MobileRelay

namespace Session

variable {s : Session} {known : Option Link} {frame : Flying}

/-- Polling moves a frame from the queue to its path. -/
theorem poll_inv (h : SessionInv home known s) :
    SessionInv home known (s.step mac home (.call .poll)) := by
  have hcontrol := s.client.control_poll
  have hsends := h.noSends
  rw [hcontrol] at hsends
  refine ⟨h.injective, h.registered, attributable_append.mpr ⟨h.flight, ?_⟩, ?_, ?_⟩
  · refine attributable_others fun frame hframe => ?_
    obtain ⟨control, hmem, rfl⟩ := List.mem_map.mp hframe
    have hkept := hsends control (List.mem_append_left _ (List.mem_filter.mp hmem).1)
    exact decide_eq_false hkept
  · exact fun control hmem => hsends control (List.mem_append_right _ hmem)
  · intro active hactive hendpoint hlive
    have hqueued := h.queued active hactive hendpoint hlive
    rw [hcontrol, toward_append, ← List.append_assoc] at hqueued
    exact hqueued

/-- The link of the last REGISTER is the one the client sends on. -/
theorem registered_link (h : SessionInv home known s) (hregular : s.SendsRegistered)
    {active : Active} (hactive : s.client.active = some active)
    (hendpoint : active.endpoint = home.endpoint) (hlive : s.client.expiresAtUnix ≠ 0) :
    lastRegister known s.flight = some active.ladder.link := by
  obtain ⟨hempty, hunproven⟩ := hregular
  have hqueued := h.queued active hactive hendpoint hlive
  rw [hempty, toward_nil, List.append_nil] at hqueued
  rw [hqueued, registerLink]
  cases hlink : active.ladder.link with
  | udp => rw [if_neg fun hwss => absurd hwss.1 (by decide)]
  | wss =>
    have hproven : active.ladder.udpProven = false :=
      Bool.eq_false_iff.mpr fun hproven => hunproven active hactive ⟨hlink, hproven⟩
    rw [if_pos ⟨rfl, hproven⟩]

/-- A SEND frame is on the link of the active relay. -/
theorem sending_eq {peer : PublicKey} {payload : List UInt8} {now : Nat}
    (h : s.sending home peer payload now = some frame) :
    s.client.expiresAtUnix ≠ 0 ∧ frame.isRegister = false ∧
      ∃ active, s.client.active = some active ∧ active.endpoint = home.endpoint ∧
        active.ladder.link = frame.link := by
  obtain ⟨link, hlink, h⟩ := Option.bind_eq_some_iff.mp h
  obtain ⟨id, -, h⟩ := Option.bind_eq_some_iff.mp h
  obtain ⟨active, hactive, h⟩ := Option.bind_eq_some_iff.mp h
  obtain ⟨data, hdata, h⟩ := Option.bind_eq_some_iff.mp h
  obtain ⟨hlive, active', hactive', hsame⟩ := outbound_relay hlink
  cases hactive.symm.trans hactive'
  split_ifs at h with hendpoint
  cases h
  refine ⟨hlive, ?_, active, hactive, hendpoint, hsame⟩
  unfold sendFrame at hdata
  split_ifs at hdata
  cases hdata
  rfl

/-- A SEND frame follows the REGISTER of its link. -/
theorem send_inv (h : SessionInv home known s) (peer : PublicKey) (payload : List UInt8) (now : Nat)
    (hregular : s.SendsRegistered) :
    SessionInv home known (s.step mac home (.send peer payload now)) := by
  have hqueues : Queues 0 s.client (s.client.outbound peer now).1 := by
    unfold outbound
    split
    · exact .of_eq rfl rfl rfl
    · exact .of_eq rfl rfl rfl
  have hrouted : SessionInv home known
      { s with client := (s.client.outbound peer now).1, replies := s.replies } := h.queues hqueues
  change SessionInv home known
    { s with
      client := (s.client.outbound peer now).1
      flight := s.flight ++ (s.sending home peer payload now).toList }
  cases hsending : s.sending home peer payload now with
  | none =>
    rw [Option.toList_none, List.append_nil]
    exact hrouted
  | some frame =>
    obtain ⟨hlive, hother, active, hactive, hendpoint, hlink⟩ := sending_eq hsending
    have hlast := registered_link h hregular hactive hendpoint hlive
    rw [hlink] at hlast
    have hsame : ∀ known, lastRegister known [frame] = known :=
      fun _ => lastRegister_cons_other hother
    refine ⟨hrouted.injective, hrouted.registered, ?_, hrouted.noSends, ?_⟩
    · exact attributable_append.mpr ⟨h.flight, fun _ => hlast, trivial⟩
    · intro active hactive hendpoint hlive
      have hqueued := hrouted.queued active hactive hendpoint hlive
      rw [Option.toList_some, lastRegister_append, lastRegister_append, hsame,
        ← lastRegister_append]
      exact hqueued

/-- The oldest frame of a path, among the frames in flight. -/
theorem next_split {link : Link} (h : s.next link = some frame) :
    frame.link = link ∧ ∃ newer, s.flight = s.overtaken link ++ frame :: newer ∧
      s.flight.eraseP (fun frame => frame.link = link) = s.overtaken link ++ newer := by
  unfold next at h
  unfold overtaken
  have hlink : frame.link = link := by simpa using List.find?_some h
  refine ⟨hlink, ?_⟩
  generalize s.flight = flight at h ⊢
  induction flight with
  | nil => cases h
  | cons first flight ih =>
    by_cases hfirst : first.link = link
    · rw [List.find?_cons_of_pos (by simpa using hfirst)] at h
      cases h
      refine ⟨flight, ?_, ?_⟩
      · simp [hfirst]
      · simp [hfirst]
    · rw [List.find?_cons_of_neg (by simpa using hfirst)] at h
      obtain ⟨newer, hflight, herased⟩ := ih h
      refine ⟨newer, ?_, ?_⟩
      · rw [List.takeWhile_cons_of_pos (by simpa using hfirst), List.cons_append, ← hflight]
      · rw [List.takeWhile_cons_of_pos (by simpa using hfirst), List.cons_append, ← herased,
          List.eraseP_cons_of_neg (by simpa using hfirst)]

/-- What a frame that arrives leaves registered. -/
theorem handle_registered {link : Link}
    (h : SessionInv home known s) {clock : Clock} (hlink : frame.link = link)
    (hregisters : s.Registers mac home link frame clock) {client : Client}
    (hclient : (s.hub.handle mac frame.data (home.source link) clock).1.clients.lookup home.id =
      some client) :
    ∃ link', lastRegister known [frame] = some link' ∧ client.addr = home.source link' := by
  have happlies := s.hub.handle_applies mac frame.data (home.source link) clock
  by_cases hregister : frame.isRegister
  · -- the client has just been registered at the source of the frame
    obtain ⟨⟨id, accepted⟩, haccepted, hid⟩ := Option.map_eq_some_iff.mp (hregisters hregister)
    obtain rfl : id = home.id := hid
    refine ⟨link, (if_pos hregister).trans (by rw [hlink]), ?_⟩
    cases happlies.clients hclient with
    | registered hsame => exact Hub.registration_addr (happlies.registered hsame).2.2.2
    | kept before hbefore haddr hexpires hothers =>
      exact absurd rfl (hothers home.id accepted haccepted).1
  · -- nothing registers, so the registration is one from before
    have hnone : s.hub.accepts mac frame.data (home.source link) clock = none := by
      have hkind : frame.data.head? ≠ some REGISTER := fun hkind => hregister (decide_eq_true hkind)
      unfold Hub.accepts
      split
      · rfl
      · rw [if_neg hkind]
    rw [lastRegister_cons_other (Bool.eq_false_iff.mpr hregister)]
    have hfrom := happlies.clients hclient
    rw [hnone] at hfrom
    cases hfrom with
    | registered hsame => exact nomatch hsame
    | kept before hbefore haddr hexpires hothers =>
      obtain ⟨link', hknown, hsource⟩ := h.registered before hbefore
      exact ⟨link', hknown, haddr.trans hsource⟩

theorem handle_injective {hub : Hub} (h : hub.Injective) (data : List UInt8) (link : Link)
    (clock : Clock) : (hub.handle mac data (home.source link) clock).1.Injective := by
  cases link with
  | udp => exact Hub.step_injective h (.received data home.address clock)
  | wss => exact Hub.step_injective h (.frame home.stream data clock)

section

variable (h : SessionInv home known s)
include h

theorem deliver_inv (link : Link) (clock : Clock)
    (hregular : s.Regular mac home (.deliver link clock)) :
    ∃ known', SessionInv home known' (s.step mac home (.deliver link clock)) := by
  cases hnext : s.next link with
  | none =>
    have hstep : s.step mac home (.deliver link clock) = s := by simp only [step, hnext]
    rw [hstep]
    exact ⟨known, h⟩
  | some frame =>
    obtain ⟨horder, hregisters⟩ := hregular frame hnext
    obtain ⟨hlink, newer, hflight, herased⟩ := next_split hnext
    have hattributable := h.flight
    rw [hflight] at hattributable
    refine ⟨lastRegister known [frame], ?_⟩
    simp only [step, hnext]
    rw [herased]
    refine ⟨handle_injective h.injective _ link clock, ?_, ?_, h.noSends, ?_⟩
    · exact fun client hclient => handle_registered h hlink hregisters hclient
    · exact (arrives horder hattributable []).1
    · intro active hactive hendpoint hlive
      have hqueued := h.queued active hactive hendpoint hlive
      rw [hflight] at hqueued
      exact (arrives horder hattributable _).2.1.trans hqueued

theorem other_inv (event : HubEvent) : SessionInv home known (s.step mac home (.other event)) := by
  simp only [step]
  split
  · exact h
  · next hforeign =>
    refine ⟨Hub.step_injective h.injective event, fun client hclient => ?_, h.flight, h.noSends,
      h.queued⟩
    cases s.hub.step_from event hclient with
    | registered haccepted =>
      rw [haccepted] at hforeign
      exact absurd rfl hforeign
    | kept before hbefore haddr hexpires hothers =>
      obtain ⟨link, hknown, hsource⟩ := h.registered before hbefore
      exact ⟨link, hknown, haddr.trans hsource⟩

/-- A call that is not `poll` sends nothing. -/
theorem call_inv {call : MobileCall} (hpoll : call ≠ .poll)
    (hregular : s.Regular mac home (.call call)) :
    SessionInv home known (s.step mac home (.call call)) := by
  have hstep : s.step mac home (.call call) =
      { s with client := s.client.step call, replies := s.replies } := by
    have hnothing : s.polled home call = [] := by
      cases call with
      | poll => exact absurd rfl hpoll
      | _ => rfl
    simp only [step, hnothing, List.append_nil]
  have hroom : s.Room := by
    cases call with
    | poll => exact absurd rfl hpoll
    | configure token expiresAtUnix relays now => exact hregular.1
    | _ => exact hregular
  rw [hstep]
  refine h.queues (call_queues call hpoll hroom ?_)
  rintro token expiresAtUnix relays now rfl
  exact hregular.2

theorem reply_inv (link : Link) (now : Nat) (hroom : s.Room) :
    SessionInv home known (s.step mac home (.reply link now)) := by
  simp only [step]
  split
  · exact h
  · refine h.queues (inbound_queues _ link home.endpoint now ?_)
    exact le_trans (Nat.add_le_add_left (by decide) _) hroom

end

theorem step_inv (s : Session) (event : SessionEvent) (hregular : s.Regular mac home event)
    (h : ∃ known, SessionInv home known s) :
    ∃ known, SessionInv home known (s.step mac home event) := by
  obtain ⟨known, h⟩ := h
  cases event with
  | call call =>
    by_cases hpoll : call = .poll
    · subst hpoll
      exact ⟨known, poll_inv h⟩
    · exact ⟨known, call_inv h hpoll hregular⟩
  | send peer payload now => exact ⟨known, send_inv h peer payload now hregular⟩
  | deliver link clock => exact deliver_inv h link clock hregular
  | reply link now => exact ⟨known, reply_inv h link now hregular⟩
  | other event => exact ⟨known, other_inv h event⟩

theorem start_inv (allowWss : Bool) (config : HubConfig) :
    SessionInv home none (start home allowWss config) := by
  have hnobody : ∀ id, (start home allowWss config).hub.clients.lookup id = none :=
    fun id => AList.lookup_empty id
  refine ⟨fun id id' client client' hclient => ?_, fun client hclient => ?_, trivial,
    noSends_nil, fun active hactive => (nomatch hactive)⟩
  · exact nomatch hclient
  · exact nomatch hclient

end Session

/-! ## Forwarding -/

namespace Hub

/-- A SEND frame from an address is taken up in the name of `id`: whoever is registered there is
`id`, and with nothing in the way (the rates of the source and of the node, the length, a live
destination) the payload is forwarded as coming from `id`. -/
def ForwardsAs (mac : List UInt8 → NodeId → Nat → Token) (hub : Hub) (data : List UInt8)
    (source : PeerAddr) (clock : Clock) (id : NodeId) : Prop :=
  hub.senderAt source = some id ∧
  ∀ sourceAddr destinationId destination,
    (hub.admitFrame data source clock).2 = some (sourceAddr, destinationId) →
    data.length ≤ MAX_SEND_FRAME →
    (hub.admitNode id clock.instant).2 →
    hub.clients.lookup destinationId = some destination → clock.unix < destination.expiresAt →
    (hub.handle mac data source clock).2 =
      some (destination.addr, forwardedFrame id (data.drop HEADER))

/-- Where nobody shares an address, the client at an address is the sender. -/
theorem senderAt_eq {hub : Hub} {source : PeerAddr} {id : NodeId} {client : Client}
    (hinjective : hub.Injective) (hclient : hub.clients.lookup id = some client)
    (haddr : client.addr = source) : hub.senderAt source = some id := by
  have hsome : (hub.senderAt source).isSome := by
    rw [senderAt, Option.isSome_map, List.find?_isSome]
    exact ⟨⟨id, client⟩, Table.lookup_eq_some_iff.mp hclient, decide_eq_true haddr⟩
  obtain ⟨found, hfound⟩ := Option.isSome_iff_exists.mp hsome
  obtain ⟨sender, hsender, hsource⟩ := senderAt_spec hfound
  rw [hfound, hinjective found id sender client hsender hclient (hsource.trans haddr.symm)]

/-- A live registration at the source of a SEND frame is all the hub needs to know the sender. -/
theorem forwardsAs {hub : Hub} {source : PeerAddr} {clock : Clock} {id : NodeId} {client : Client}
    {data : List UInt8} (hinjective : hub.Injective)
    (hclient : hub.clients.lookup id = some client) (haddr : client.addr = source)
    (hlive : clock.unix < client.expiresAt) (hsend : data.head? = some SEND) :
    hub.ForwardsAs mac data source clock id := by
  have hsender := senderAt_eq hinjective hclient haddr
  refine ⟨hsender, fun sourceAddr destinationId destination hframe hlength hrate hlookup
    hreachable => ?_⟩
  obtain ⟨buckets, hcounted, -⟩ := hub.admitFrame_eq data source clock
  unfold handle
  rcases hadmitted : hub.admitFrame data source clock with ⟨counted, checked⟩
  rw [hadmitted] at hframe hcounted
  subst hframe hcounted
  have hkind : data.head? ≠ some REGISTER := by
    rw [hsend]
    decide
  have hexpired : ¬((hub.clients.lookup id).any fun client => client.expiresAt ≤ clock.unix) =
      true := by
    rw [hclient, Option.any_some, decide_eq_true_iff]
    exact Nat.not_le.mpr hlive
  dsimp only
  rw [dispatch, if_neg hkind, if_pos hsend, send, if_neg (Nat.not_lt.mpr hlength)]
  rw [show senderAt { hub with sourceBuckets := buckets } source = some id from hsender]
  dsimp only
  rw [if_neg hexpired]
  rw [show (admitNode { hub with
      sourceBuckets := buckets
      clients := touch hub.clients id clock.instant } id clock.instant).2 = true from hrate]
  -- the destination was touched at most in when it was last seen
  have htouched : ∃ seen, (touch hub.clients id clock.instant).lookup destinationId = some seen ∧
      seen.addr = destination.addr ∧ seen.expiresAt = destination.expiresAt := by
    rw [touch, Table.lookup_mapEntries, hlookup]
    split_ifs
    · exact ⟨_, rfl, rfl, rfl⟩
    · exact ⟨_, rfl, rfl, rfl⟩
  obtain ⟨seen, hseen, hsame, hexpiry⟩ := htouched
  change (forward { hub with
      sourceBuckets := buckets
      clients := touch hub.clients id clock.instant
      nodeBuckets := _ } data id destinationId clock).2 = _
  unfold forward
  rw [hseen]
  dsimp only
  rw [if_neg (by rw [hexpiry]; exact Nat.not_le.mpr hreachable), hsame]

end Hub

/-- **Attribution across links**: in every run whose steps are all regular, a SEND frame of the
client that reaches the hub while the client is registered there and its capability has not expired
is taken up in the client's name, whichever link it comes on. -/
theorem sends_attributed (mac : List UInt8 → NodeId → Nat → Token) (home : Attachment)
    (allowWss : Bool) (config : HubConfig) (events : List SessionEvent) (link : Link)
    (clock : Clock)
    (halong : Along (Session.step mac home) (Session.Regular mac home)
      (.start home allowWss config) (events ++ [.deliver link clock])) :
    let s := run (Session.step mac home) (.start home allowWss config) events
    ∀ frame client, s.next link = some frame → frame.isSend →
      s.hub.clients.lookup home.id = some client → clock.unix < client.expiresAt →
      s.hub.ForwardsAs mac frame.data (home.source link) clock home.id := by
  intro s frame client hnext hsend hclient hlive
  obtain ⟨hpast, hlast, -⟩ := along_append.mp halong
  have hinv : ∃ known, SessionInv home known s :=
    run_invariant_along Session.step_inv hpast ⟨none, Session.start_inv allowWss config⟩
  obtain ⟨known, hinv⟩ := hinv
  obtain ⟨horder, -⟩ := hlast frame hnext
  obtain ⟨hlink, newer, hflight, -⟩ := Session.next_split hnext
  have hattributable := hinv.flight
  rw [hflight] at hattributable
  have hknown := (arrives horder hattributable []).2.2 hsend
  obtain ⟨link', hknown', haddr⟩ := hinv.registered client hclient
  obtain rfl : link' = link := by
    rw [← hlink]
    exact Option.some.inj (hknown'.symm.trans hknown)
  exact Hub.forwardsAs hinv.injective hclient haddr hlive (of_decide_eq_true hsend)

/-! ## A slow UDP path -/

instance MobileRelay.Withdraws.decidable (s : MobileRelay) (relays : List RelayOption) :
    Decidable (s.Withdraws relays) :=
  decidable_of_iff
    ((s.active.any fun active => decide (registerLink active = .wss) &&
      (listed relays active.endpoint).any fun relay => decide (wssOf s.allowWss relay = none)))
    (by simp only [Withdraws, Option.any_eq_true, Bool.and_eq_true, decide_eq_true_eq,
      Option.mem_def])

instance Session.Registers.decidable (mac : List UInt8 → NodeId → Nat → Token) (home : Attachment)
    (s : Session) (link : Link) (frame : Flying) (clock : Clock) :
    Decidable (s.Registers mac home link frame clock) :=
  inferInstanceAs (Decidable (_ → _))

instance Session.Regular.decidable (mac : List UInt8 → NodeId → Nat → Token) (home : Attachment)
    (s : Session) : ∀ event, Decidable (s.Regular mac home event)
  | .call .poll | .other _ => isTrue trivial
  | .call (.configure token expiresAtUnix relays _) =>
    inferInstanceAs (Decidable (_ + _ ≤ _ ∧ (s.client.Withdraws relays →
      token ≠ s.client.token ∨ expiresAtUnix ≠ s.client.expiresAtUnix)))
  | .call (.setPeer _ _ _) | .call .beginPeerRefresh | .call .endPeerRefresh
  | .call (.outbound _ _) | .call (.directReceived _) | .call (.inbound _ _ _ _)
  | .call (.tick _) | .reply _ _ => inferInstanceAs (Decidable (_ + _ ≤ _))
  | .send _ _ _ => inferInstanceAs (Decidable (_ = _ ∧ ∀ active ∈ s.client.active, _))
  | .deliver link clock =>
    inferInstanceAs (Decidable (∀ frame ∈ s.next link,
      (_ ∨ _) ∧ s.Registers mac home link frame clock))

/-- The phone at the relay in Sydney, behind one public address. -/
def phoneAt : Attachment := ⟨phone, "syd:3478", ⟨.v4 0x01020304, 4000⟩, 1⟩

/-- Every token is the same: enough for one client and one peer. -/
def sameToken : List UInt8 → NodeId → Nat → Token := fun _ _ _ => capability

def polls (n : Nat) : List SessionEvent := List.replicate n (.call .poll)

def deliveries (link : Link) (second n : Nat) : List SessionEvent :=
  List.replicate n (.deliver link ⟨secs second, second⟩)

/-- The desk is registered.  The phone's first four rounds reach the hub only after 16 seconds; by
then the phone is on the WebSocket, and registered there. -/
def fallenBack : List SessionEvent :=
  [.other (.opened 1 ⟨.v4 0x01020304, 5000⟩),
    .other (.received (mintedFrame sameToken [1] desk 1000) ⟨.v4 0x05060708, 6000⟩ ⟨0, 0⟩),
    .call (.configure capability 1000 [sydney] 0), .call (.setPeer deskKey desk false)] ++
  polls 2 ++ [.call (.tick (secs 5))] ++ polls 2 ++ [.call (.tick (secs 10))] ++ polls 2 ++
  [.call (.tick (secs 15))] ++ polls 4 ++ deliveries .udp 16 8 ++ deliveries .wss 16 2

/-- What the phone sends on the WebSocket is forwarded in its name. -/
theorem sends_attributed_fallenBack :
    let s := run (Session.step sameToken phoneAt) (.start phoneAt true ⟨[1], {}⟩)
      (fallenBack ++ [.send deskKey [9] (secs 17)])
    ∃ frame, s.next .wss = some frame ∧
      s.hub.ForwardsAs sameToken frame.data (phoneAt.source .wss) ⟨secs 17, 17⟩ phone := by
  intro s
  have halong : Along (Session.step sameToken phoneAt) (Session.Regular sameToken phoneAt)
      (.start phoneAt true ⟨[1], {}⟩)
      (fallenBack ++ [.send deskKey [9] (secs 17)] ++ [.deliver .wss ⟨secs 17, 17⟩]) := by
    decide +kernel
  have hnext : s.next .wss = some ⟨.wss, SEND :: (desk.val ++ [9])⟩ := by decide +kernel
  have hclient : s.hub.clients.lookup phone = some ⟨.stream 1, 1000, secs 16⟩ := by decide +kernel
  exact ⟨_, hnext, sends_attributed sameToken phoneAt true ⟨[1], {}⟩ _ .wss ⟨secs 17, 17⟩ halong _ _
    hnext rfl hclient (by decide)⟩

/-- Then UDP answers for one round.  The next round registers over UDP only, while the phone still
sends on the WebSocket: the hub has its live registration, and drops what it sends. -/
theorem sends_refused_proven :
    let events := fallenBack ++ [.reply .udp (secs 17), .call (.tick (secs 40))] ++ polls 2 ++
      deliveries .udp 40 2 ++ [.send deskKey [9] (secs 41)]
    let s := run (Session.step sameToken phoneAt) (.start phoneAt true ⟨[1], {}⟩) events
    s.client.active.map (fun active => active.ladder.link) = some .wss ∧
    s.next .wss = some ⟨.wss, SEND :: (desk.val ++ [9])⟩ ∧
    s.hub.clients.lookup phone = some ⟨.udp ⟨.v4 0x01020304, 4000⟩, 1000, secs 40⟩ ∧
    s.hub.clients.lookup desk = some ⟨.udp ⟨.v4 0x05060708, 6000⟩, 1000, 0⟩ ∧
    s.hub.senderAt (phoneAt.source .wss) = none ∧
    (s.hub.handle sameToken (SEND :: (desk.val ++ [9])) (phoneAt.source .wss) ⟨secs 41, 41⟩).2 =
      none := by
  decide +kernel

end BlakTail.Relay
