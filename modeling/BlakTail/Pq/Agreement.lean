import BlakTail.Pq.Stream

/-!
# Agreement

Any number of exchanges between any devices, over a network the attacker owns: it
delivers what it likes, as often as it likes, as long as it can compute it.  It may hold
every secret except the static agreement of the pair in question.

Both sides accept a code under a key derived from that agreement and the transcript, so
whoever computed it ran the other half of the same exchange.  `Authentic.code_sent` is
that argument, and the two halves are its two cases.
-/

namespace BlakTail.Pq

open Foundation

/-- The other end. -/
def Role.opposite : Role → Role
  | initiator => responder
  | responder => initiator

/-- A half of an exchange that has derived its key. -/
structure Session where
  role : Role
  own : Key
  peer : Key
  epoch : Nat
  psk : Psk
  deriving DecidableEq

/-- The other half of the same exchange. -/
def Session.counterpart (session : Session) : Session :=
  ⟨session.role.opposite, session.peer, session.own, session.epoch, session.psk⟩

/-- A responder's half and the pair it is for. -/
structure Waiting where
  own : Key
  peer : Key
  half : Responder
  deriving DecidableEq

/-- The halves in progress, those that have derived a key, those that have accepted the
other side's confirmation, and the codes sent. -/
structure Net where
  initiators : List Initiator := []
  responders : List Waiting := []
  sessions : List Session := []
  completed : List Session := []
  sent : List Value := []

/-- The codes in a message; its other fields are public data. -/
def Message.codes : Message → List Value
  | .resp _ _ _ _ tag => tag.toList
  | .confirm _ _ tag => tag.toList
  | _ => []

/-- What a device does next, with the message it is given. -/
inductive Move where
  | initiate (own peer : Key) (epoch x25519 dk : Nat)
  | respond (own peer : Key) (lastEpoch : Nat) (message : Message) (secret coins : Nat)
  | finishInitiator (i : Nat) (message : Message)
  | finishResponder (i : Nat) (message : Message)
  deriving DecidableEq

def Move.message : Move → Option Message
  | .initiate .. => none
  | .respond _ _ _ message _ _ => some message
  | .finishInitiator _ message => some message
  | .finishResponder _ message => some message

namespace Net

variable (net : Net)

def initiate (own peer : Key) (epoch x25519 dk : Nat) : Net :=
  match Pq.initiate own peer (.secret (staticAgreement own peer)) epoch x25519 dk with
  | .ok (half, _) => { net with initiators := half :: net.initiators }
  | .error _ => net

def respond (own peer : Key) (lastEpoch : Nat) (message : Message) (secret coins : Nat) : Net :=
  match Pq.respond own peer (.secret (staticAgreement own peer)) lastEpoch message secret coins with
  | .ok (half, reply) =>
    { net with
      responders := ⟨own, peer, half⟩ :: net.responders
      sessions := ⟨.responder, own, peer, half.epoch, half.psk⟩ :: net.sessions
      sent := reply.codes ++ net.sent }
  | .error _ => net

/-- An initiator's half reads its response; it is used up either way. -/
def finishInitiator (i : Nat) (message : Message) : Net :=
  match net.initiators[i]? with
  | none => net
  | some half =>
    let net := { net with initiators := net.initiators.eraseIdx i }
    match half.finish message with
    | .ok (psk, reply) =>
      let session : Session := ⟨.initiator, half.own, half.peer, half.epoch, psk⟩
      { net with
        sessions := session :: net.sessions
        completed := session :: net.completed
        sent := reply.codes ++ net.sent }
    | .error _ => net

/-- A responder's half reads the confirmation; it is used up either way. -/
def finishResponder (i : Nat) (message : Message) : Net :=
  match net.responders[i]? with
  | none => net
  | some waiting =>
    let net := { net with responders := net.responders.eraseIdx i }
    match waiting.half.finish message with
    | .ok psk =>
      { net with completed :=
          ⟨.responder, waiting.own, waiting.peer, waiting.half.epoch, psk⟩ :: net.completed }
    | .error _ => net

def step (net : Net) : Move → Net
  | .initiate own peer epoch x25519 dk => net.initiate own peer epoch x25519 dk
  | .respond own peer lastEpoch message secret coins =>
    net.respond own peer lastEpoch message secret coins
  | .finishInitiator i message => net.finishInitiator i message
  | .finishResponder i message => net.finishResponder i message

/-- The attacker, with the secrets in `held`, can compute the message. -/
def Derivable (held : Secret → Prop) (net : Net) (move : Move) : Prop :=
  ∀ message, move.message = some message → ∀ code ∈ message.codes, Derives held net.sent code

end Net

/-- The session a code of this role and transcript speaks for. -/
def Transcript.session (th : Transcript) (psk : Psk) : Role → Session
  | .initiator => ⟨.initiator, th.initiatorWg, th.responderWg, th.epoch, psk⟩
  | .responder => ⟨.responder, th.responderWg, th.initiatorWg, th.epoch, psk⟩

/-- Everything sent or awaited belongs to a half that derived its key from the static
agreement of its pair. -/
structure Net.Authentic (held : Secret → Prop) (net : Net) : Prop where
  initiators : ∀ half ∈ net.initiators,
    half.staticSecret = .secret (staticAgreement half.own half.peer)
  responders : ∀ waiting ∈ net.responders, ∃ kem dh th,
    let keys := derive kem dh (.secret (staticAgreement waiting.own waiting.peer)) th
    waiting.half = ⟨th.epoch, keys.1, confirmTag keys.2 .initiator th⟩ ∧
      th.responderWg = waiting.own ∧ th.initiatorWg = waiting.peer
  sent : ∀ code ∈ net.sent, ∃ kem dh agreed th role,
    let keys := derive kem dh agreed th
    code = confirmTag keys.2 role th ∧ th.session keys.1 role ∈ net.sessions
  completed : ∀ session ∈ net.completed,
    ¬ held (staticAgreement session.own session.peer) → session.counterpart ∈ net.sessions

namespace Net.Authentic

variable {held : Secret → Prop} {net : Net}

/-- A code determines its role, its transcript and the PSK of its half. -/
theorem confirmTag_inj {kem dh : Value} {th : Transcript} {role : Role}
    {agreed kem' dh' agreed' : Value} {th' : Transcript} {role' : Role}
    (h : confirmTag (derive kem dh agreed th).2 role th =
      confirmTag (derive kem' dh' agreed' th').2 role' th') :
    role = role' ∧ th = th' ∧ (derive kem dh agreed th).1 = (derive kem' dh' agreed' th').1 := by
  obtain ⟨hkey, hbound⟩ := Term.mac.inj h
  cases hbound
  obtain ⟨-, -, hikm⟩ := Term.kdf.inj hkey
  refine ⟨rfl, rfl, ?_⟩
  simp only [derive, hikm]

section

variable (h : net.Authentic held)
include h

/-- Whoever can produce a code under an agreement nobody holds repeats a half that
derived the same key. -/
theorem code_sent {kem dh : Value} {th : Transcript} {role : Role}
    {agreed : Secret} (hheld : ¬ held agreed)
    (hderives : Derives held net.sent (confirmTag (derive kem dh (.secret agreed) th).2 role th)) :
    th.session (derive kem dh (.secret agreed) th).1 role ∈ net.sessions := by
  have hcodes : ∀ code ∈ net.sent, Revealed held net.sent code := by
    intro code hcode
    obtain ⟨kem, dh, agreed, th, role, rfl, -⟩ := h.sent code hcode
    exact .inr hcode
  have hkey : ¬ Revealed held net.sent (derive kem dh (.secret agreed) th).2 :=
    fun hrevealed => hheld hrevealed.2.2
  have hsent := hderives.mac_seen hcodes hkey
  obtain ⟨kem', dh', agreed', th', role', hsame, hsession⟩ := h.sent _ hsent
  obtain ⟨rfl, rfl, hpsk⟩ := confirmTag_inj hsame
  rw [hpsk]
  exact hsession

/-- More sessions take nothing back. -/
theorem mono {more : Net} (hinitiators : more.initiators ⊆ net.initiators)
    (hresponders : more.responders ⊆ net.responders) (hsent : more.sent = net.sent)
    (hsessions : net.sessions ⊆ more.sessions) (hcompleted : more.completed = net.completed) :
    more.Authentic held where
  initiators half hhalf := h.initiators half (hinitiators hhalf)
  responders waiting hwaiting := h.responders waiting (hresponders hwaiting)
  sent code hcode := by
    obtain ⟨kem, dh, agreed, th, role, hcode, hsession⟩ := h.sent code (hsent ▸ hcode)
    exact ⟨kem, dh, agreed, th, role, hcode, hsessions hsession⟩
  completed session hsession hheld :=
    hsessions (h.completed session (hcompleted ▸ hsession) hheld)

theorem initiate (own peer : Key) (epoch x25519 dk : Nat) :
    (net.initiate own peer epoch x25519 dk).Authentic held := by
  unfold Net.initiate
  split
  · next half init hok =>
    obtain ⟨rfl, -⟩ := initiate_ok hok
    refine { h with initiators := ?_ }
    intro half hhalf
    rcases List.mem_cons.mp hhalf with rfl | hhalf
    · rfl
    · exact h.initiators half hhalf
  · exact h

theorem respond (own peer : Key) (lastEpoch : Nat) (message : Message) (secret coins : Nat) :
    (net.respond own peer lastEpoch message secret coins).Authentic held := by
  unfold Net.respond
  split
  · next half reply hok =>
    obtain ⟨epoch, x, ek, dh, -, -, -, -, rfl, rfl⟩ := respond_ok hok
    -- The code in the response belongs to the session that starts with it.
    refine ⟨h.initiators, ?_, ?_, ?_⟩
    · intro waiting hwaiting
      rcases List.mem_cons.mp hwaiting with rfl | hwaiting
      · exact ⟨_, dh, ⟨epoch, peer, own, x, ek, .point secret, ⟨ek, coins⟩⟩, rfl, rfl, rfl⟩
      · exact h.responders waiting hwaiting
    · intro code hcode
      rcases List.mem_cons.mp hcode with rfl | hcode
      · exact ⟨_, dh, _, ⟨epoch, peer, own, x, ek, .point secret, ⟨ek, coins⟩⟩, .responder, rfl,
          List.mem_cons_self⟩
      · obtain ⟨kem, dh, agreed, th, role, hsame, hsession⟩ := h.sent code hcode
        exact ⟨kem, dh, agreed, th, role, hsame, List.mem_cons_of_mem _ hsession⟩
    · intro session hsession hheld
      exact List.mem_cons_of_mem _ (h.completed session hsession hheld)
  · exact h

theorem finishInitiator (i : Nat) {message : Message}
    (hderivable : ∀ code ∈ message.codes, Derives held net.sent code) :
    (net.finishInitiator i message).Authentic held := by
  unfold Net.finishInitiator
  split
  · exact h
  · next half hhalf =>
    have hagreed := h.initiators half (List.mem_of_getElem? hhalf)
    split
    · next psk reply hfinish =>
      obtain ⟨x, ct, dh, -, rfl, rfl, rfl⟩ := Initiator.finish_ok hfinish
      rw [hagreed] at hderivable ⊢
      refine ⟨?_, h.responders, ?_, ?_⟩
      · intro other hother
        exact h.initiators other (List.mem_of_mem_eraseIdx hother)
      · intro code hcode
        rcases List.mem_cons.mp hcode with rfl | hcode
        · exact ⟨_, dh, _, half.transcript x ct, .initiator, rfl, List.mem_cons_self⟩
        · obtain ⟨kem, dh, agreed, th, role, hsame, hsession⟩ := h.sent code hcode
          exact ⟨kem, dh, agreed, th, role, hsame, List.mem_cons_of_mem _ hsession⟩
      · intro session hsession hheld
        rcases List.mem_cons.mp hsession with rfl | hsession
        · -- the response's code: its sender answered this very transcript
          have hcode := hderivable _ (List.mem_singleton_self _)
          exact List.mem_cons_of_mem _ (h.code_sent hheld hcode)
        · exact List.mem_cons_of_mem _ (h.completed session hsession hheld)
    · exact h.mono (List.eraseIdx_subset) (fun _ hm => hm) rfl (fun _ hm => hm) rfl

theorem finishResponder (i : Nat) {message : Message}
    (hderivable : ∀ code ∈ message.codes, Derives held net.sent code) :
    (net.finishResponder i message).Authentic held := by
  unfold Net.finishResponder
  split
  · exact h
  · next waiting hwaiting =>
    obtain ⟨kem, dh, th, hhalf, hown, hpeer⟩ :=
      h.responders waiting (List.mem_of_getElem? hwaiting)
    split
    · next psk hfinish =>
      obtain ⟨rfl, rfl⟩ := Responder.finish_ok.mp hfinish
      refine ⟨h.initiators, ?_, h.sent, ?_⟩
      · intro other hother
        exact h.responders other (List.mem_of_mem_eraseIdx hother)
      · intro session hsession hheld
        rcases List.mem_cons.mp hsession with rfl | hsession
        · -- the confirmation's code: its sender finished this very transcript
          have hcode := hderivable _ (List.mem_singleton_self _)
          rw [hhalf] at hcode
          have hsession := h.code_sent hheld hcode
          simpa [Session.counterpart, Role.opposite, Transcript.session, hhalf, hown, hpeer]
            using hsession
        · exact h.completed session hsession hheld
    · exact h.mono (fun _ hm => hm) (List.eraseIdx_subset) rfl (fun _ hm => hm) rfl

end

end Net.Authentic

/-- One step under a derivable message keeps the network authentic. -/
theorem Net.step_authentic {held : Secret → Prop} (net : Net) (move : Move)
    (hderivable : Net.Derivable held net move) (h : net.Authentic held) :
    (net.step move).Authentic held := by
  cases move with
  | initiate own peer epoch x25519 dk => exact h.initiate own peer epoch x25519 dk
  | respond own peer lastEpoch message secret coins =>
    exact h.respond own peer lastEpoch message secret coins
  | finishInitiator i message => exact h.finishInitiator i (hderivable message rfl)
  | finishResponder i message => exact h.finishResponder i (hderivable message rfl)

theorem Net.start_authentic (held : Secret → Prop) : ({} : Net).Authentic held where
  initiators _ hhalf := nomatch hhalf
  responders _ hwaiting := nomatch hwaiting
  sent _ hcode := nomatch hcode
  completed _ hsession := nomatch hsession

/-- Post-quantum agreement.

Against an attacker that owns the network and holds any secrets but the pair's static
agreement, a half that accepts the other side's confirmation has a counterpart: the named
peer ran the opposite role with the same epoch, the same two keys in the same roles and
the same PSK.

Over streams that carry only the two ends' messages and may break anywhere, a key the
initiator installs has been installed by the responder before, and its device changes as
`installs` says and in no other step. -/
theorem exchange_agreement :
    (∀ (held : Secret → Prop) (moves : List Move),
      Along Net.step (Net.Derivable held) {} moves →
      ∀ session ∈ (run Net.step {} moves).completed,
        ¬ held (staticAgreement session.own session.peer) →
          session.counterpart ∈ (run Net.step {} moves).sessions) ∧
    (∀ (low high : Key) (initiatorTrack responderTrack : Track) (transports : List Transport)
      (transport : Transport) (key : Installed),
      let pair := run Pair.step (Pair.start low high initiatorTrack responderTrack) transports
      pair.installs transport = some key → key ∈ pair.host.written) ∧
    (∀ (pair : Pair) (transport : Transport),
      (pair.step transport).device = (pair.installs transport).or pair.device) := by
  refine ⟨?_, Pair.run_installs_written, Pair.step_device⟩
  intro held moves hderivable session hsession hheld
  have hauthentic := run_invariant_along Net.step_authentic hderivable (Net.start_authentic held)
  exact hauthentic.completed session hsession hheld

/-- The moves of one exchange between the devices with keys 1 and 2. -/
def oneExchange : List Move :=
  let agreed : Value := .secret (staticAgreement 1 2)
  match initiate 1 2 agreed 1 10 11 with
  | .ok (half, init) =>
    match respond 2 1 agreed 0 init 20 21 with
    | .ok (_, response) =>
      match half.finish response with
      | .ok (_, confirm) => [.initiate 1 2 1 10 11, .respond 2 1 0 init 20 21,
          .finishInitiator 0 response, .finishResponder 0 confirm]
      | .error _ => []
    | .error _ => []
  | .error _ => []

/-- The same over a stream, up to the `Ack`. -/
def oneStream : List Transport :=
  [.dial 0 10 11, .accept 0, .toResponder 0 20 21 true, .toInitiator 0 true,
    .toResponder 0 0 0 true, .record 0]

theorem exchange_agreement_once :
    (∀ session ∈ (run Net.step {} oneExchange).completed,
      session.counterpart ∈ (run Net.step {} oneExchange).sessions) ∧
    (run Net.step {} oneExchange).completed.map Session.role = [.responder, .initiator] ∧
    ∃ key, (run Pair.step (Pair.start 1 2 {} {}) oneStream).installs (.toInitiator 0 true) =
        some key ∧
      key ∈ (run Pair.step (Pair.start 1 2 {} {}) oneStream).host.written := by
  refine ⟨fun session hsession => ?_, by decide, ?_⟩
  · -- the attacker holds nothing and delivers what it has seen
    refine exchange_agreement.1 (fun _ => False) oneExchange ?_ session hsession id
    refine ⟨?_, ?_, ?_, ?_, trivial⟩
    · intro message hmessage
      exact nomatch hmessage
    · intro message hmessage code hcode
      cases hmessage
      cases hcode
    · intro message hmessage code hcode
      cases hmessage
      exact Derives.seen hcode
    · intro message hmessage code hcode
      cases hmessage
      exact Derives.seen (List.mem_append_left _ hcode)
  · have hinstalls : ∃ key, (run Pair.step (Pair.start 1 2 {} {}) oneStream).installs
        (.toInitiator 0 true) = some key := Option.isSome_iff_exists.mp (by decide)
    obtain ⟨key, hkey⟩ := hinstalls
    exact ⟨key, hkey, exchange_agreement.2.1 1 2 {} {} oneStream _ key hkey⟩

end BlakTail.Pq
