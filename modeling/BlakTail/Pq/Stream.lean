import BlakTail.Pq.Responder

/-!
# Exchanges Over a Stream

`run_initiator` and `run_responder` over streams that carry what the two ends send, in
order, and may break at any point.  The pair may have any number of streams at once.
The responder installs before it sends its `Ack`, and the initiator installs after it
has read one.

The model keeps for every stream the two halves that were computed on it, `dialed` and
`answered`.  `Link.Sound` ties what is under way to them: a response on the stream is
the answer to its `init`, and an `Ack` on it says that the answered key is written.
-/

namespace BlakTail.Pq

open Foundation

/-- Where the initiator stands on a stream. -/
inductive Dialing where
  | idle
  | waitResponse (half : Initiator)
  | waitAck (key : Installed)
  | over
  deriving DecidableEq

/-- One stream: the initiator's end and what is under way in both directions. -/
structure Link where
  dialing : Dialing := .idle
  toResponder : List Message := []
  toInitiator : List Message := []
  dialed : Option Initiator := none
  answered : Option Responder := none
  deriving DecidableEq

/-- What the initiator makes of the message after its confirmation. -/
def acknowledged (key : Installed) : Message → Except PqError Installed
  | .ack v acked => if v = VERSION ∧ acked = key.epoch then .ok key else .error .unexpected
  | .reject _ reason lastEpoch => .error (.rejected (rejectReason reason) lastEpoch)
  | _ => .error .unexpected

/-- What reading the next message does at the initiator. -/
inductive Progress where
  | waits
  | confirms (key : Installed) (message : Message)
  | ends (result : Except PqError Installed)

/-- `run_initiator` from where it waits. -/
def Link.progress (link : Link) : Progress :=
  match link.toInitiator, link.dialing with
  | message :: _, .waitResponse half =>
    match half.finish message with
    | .ok (psk, confirm) => .confirms ⟨half.epoch, psk⟩ confirm
    | .error error => .ends (.error error)
  | message :: _, .waitAck key => .ends (acknowledged key message)
  | _, _ => .waits

namespace Track

/-- `last_epoch + 1`; `none` is an overflow. -/
def nextEpoch (track : Track) : Option Nat :=
  if track.lastEpoch < 2 ^ 64 - 1 then some (track.lastEpoch + 1) else none

def recordInitiatorOutcome (track : Track) (outcome : Except PqError Installed) (deviceOk : Bool) :
    Track :=
  match outcome with
  | .ok key => if deviceOk then ⟨max track.lastEpoch key.epoch, some key⟩ else track
  | .error (.rejected _ lastEpoch) => { track with lastEpoch := max track.lastEpoch lastEpoch }
  | .error _ => track

end Track

/-- Two devices: the responder, and the initiator's track and device for it. -/
structure Pair where
  host : Host
  track : Track := {}
  device : Option Installed := none
  links : Nat → Link := fun _ => {}

/-- What can happen next. -/
inductive Transport where
  | dial (i x25519 dk : Nat)
  | accept (i : Nat)
  | toResponder (i secret coins : Nat) (deviceOk : Bool)
  | record (i : Nat)
  | toInitiator (i : Nat) (deviceOk : Bool)
  | breakInitiator (i : Nat)
  | breakResponder (i : Nat)

namespace Pair

variable (pair : Pair)

def setLink (i : Nat) (link : Link) : Pair :=
  { pair with links := Function.update pair.links i link }

/-- Start an exchange past the last epoch. -/
def dial (i x25519 dk : Nat) : Pair :=
  let low := pair.host.peer
  let high := pair.host.own
  match (pair.links i).dialing, pair.track.nextEpoch with
  | .idle, some epoch =>
    match initiate low high (.secret (staticAgreement low high)) epoch x25519 dk with
    | .ok (half, init) =>
      pair.setLink i
        { dialing := .waitResponse half, toResponder := [init], dialed := some half }
    | .error _ => pair
  | _, _ => pair

/-- The responder takes the connection. -/
def accept (i : Nat) : Pair :=
  if (pair.links i).dialed.isSome then { pair with host := pair.host.connect i } else pair

/-- What the responder answered with, if it did. -/
def halfOf (exchange : Exchange) (earlier : Option Responder) : Option Responder :=
  match exchange.phase with
  | .pending half => some half
  | _ => earlier

/-- The responder reads the next message: its `init`, and then the confirmation. -/
def readResponder (i secret coins : Nat) (deviceOk : Bool) : Pair :=
  let link := pair.links i
  match link.toResponder with
  | [] => pair
  | message :: rest =>
    match (pair.host.exchanges i).phase with
    | .connected =>
      let (host, replies) := pair.host.answer i message secret coins
      { pair.setLink i { link with
          toResponder := rest
          toInitiator := link.toInitiator ++ replies
          answered := halfOf (host.exchanges i) link.answered } with host := host }
    | .pending _ =>
      let (host, replies) := pair.host.accept i message deviceOk
      { pair.setLink i { link with
          toResponder := rest
          toInitiator := link.toInitiator ++ replies } with host := host }
    | _ => pair

/-- The responder records the key it has written and acknowledges it. -/
def record (i : Nat) : Pair :=
  let link := pair.links i
  let (host, replies) := pair.host.record i
  { pair.setLink i { link with toInitiator := link.toInitiator ++ replies } with host := host }

def recordInitiatorOutcome (outcome : Except PqError Installed) (deviceOk : Bool) : Pair :=
  { pair with
    track := pair.track.recordInitiatorOutcome outcome deviceOk
    device := match outcome, deviceOk with
      | .ok key, true => some key
      | _, _ => pair.device }

def readInitiator (i : Nat) (deviceOk : Bool) : Pair :=
  let link := pair.links i
  match link.progress with
  | .waits => pair
  | .confirms key confirm =>
    pair.setLink i { link with
      dialing := .waitAck key
      toInitiator := link.toInitiator.tail
      toResponder := link.toResponder ++ [confirm] }
  | .ends outcome =>
    (pair.setLink i { link with
      dialing := .over
      toInitiator := link.toInitiator.tail }).recordInitiatorOutcome outcome deviceOk

def step (pair : Pair) : Transport → Pair
  | .dial i x25519 dk => pair.dial i x25519 dk
  | .accept i => pair.accept i
  | .toResponder i secret coins deviceOk => pair.readResponder i secret coins deviceOk
  | .record i => pair.record i
  | .toInitiator i deviceOk => pair.readInitiator i deviceOk
  | .breakInitiator i => pair.setLink i { pair.links i with dialing := .over }
  | .breakResponder i => { pair with host := pair.host.abort i }

/-- The key the initiator writes to its device in a step. -/
def installs : Transport → Option Installed
  | .toInitiator i deviceOk =>
    match (pair.links i).progress with
    | .ends (.ok key) => if deviceOk then some key else none
    | _ => none
  | _ => none

end Pair

/-! ## Both ends of one exchange -/

def Initiator.init (half : Initiator) : Message :=
  .init VERSION half.epoch (some half.own) (some half.peer) (some (.point half.x25519))
    (some half.dk)

theorem initiate_ok {half : Initiator}
    {own peer : Key} {agreed : Value} {epoch x25519 dk : Nat} {init : Message}
    (h : initiate own peer agreed epoch x25519 dk = .ok (half, init)) :
    half = ⟨epoch, own, peer, agreed, x25519, dk⟩ ∧ init = half.init := by
  unfold initiate at h
  split at h
  · exact nomatch h
  · cases h
    exact ⟨rfl, rfl⟩

/-- The half belongs to an exchange from `low` to `high`. -/
structure Initiator.Between (low high : Key) (half : Initiator) : Prop where
  own : half.own = low
  peer : half.peer = high
  agreed : half.staticSecret = .secret (staticAgreement low high)

/-- `reply` is what a responder that holds `answer` sent to the `init` of `half`. -/
def Answers (low high : Key) (half : Initiator) (answer : Responder) (reply : Message) : Prop :=
  ∃ lastEpoch secret coins,
    respond high low (.secret (staticAgreement high low)) lastEpoch half.init secret coins =
      .ok (answer, reply)

theorem staticAgreement_comm (a b : Key) : staticAgreement a b = staticAgreement b a := by
  unfold staticAgreement
  rw [Nat.min_comm, Nat.max_comm]

/-- The initiator derives the key of the half that answered it. -/
theorem finish_agrees {half : Initiator}
    {low high : Key} {answer : Responder} {reply confirm : Message} {psk : Psk}
    (hhalf : half.Between low high) (hanswers : Answers low high half answer reply)
    (hfinish : half.finish reply = .ok (psk, confirm)) :
    half.epoch = answer.epoch ∧ psk = answer.psk := by
  obtain ⟨lastEpoch, secret, coins, hrespond⟩ := hanswers
  obtain ⟨epoch, x, ek, dh, hdh, -, -, hinit, hanswer, hreply⟩ := respond_ok hrespond
  obtain ⟨x', ct, dh', hdh', hreply', hpsk, -⟩ := Initiator.finish_ok hfinish
  obtain ⟨-, rfl, hown, hpeer, hx, hek⟩ := Message.init.inj hinit
  cases hx
  cases hek
  obtain ⟨-, -, hx', hct, -⟩ := Message.resp.inj (hreply.symm.trans hreply')
  cases hx'
  cases hct
  -- the two X25519 agreements are the same secret, and so are the static ones
  obtain rfl : dh = dh' := by
    rw [diffieHellman, Nat.min_comm, Nat.max_comm] at hdh
    exact Except.ok.inj (hdh.symm.trans hdh')
  rw [hanswer]
  refine ⟨rfl, ?_⟩
  rw [hpsk, hhalf.agreed, staticAgreement_comm high low]
  simp only [Initiator.transcript, hhalf.own, hhalf.peer]
  rfl

/-! ## What a stream carries -/

/-- What is under way on a stream belongs to the halves computed on it. -/
structure Link.Sound (low high : Key) (written : List Installed) (phase : Phase) (link : Link) :
    Prop where
  idle : link.dialing = .idle → link.dialed = none
  dialed : ∀ half, link.dialed = some half → half.Between low high
  waiting : ∀ half, link.dialing = .waitResponse half → link.dialed = some half
  inits : ∀ v epoch initiator responder x ek,
    .init v epoch initiator responder x ek ∈ link.toResponder →
      ∃ half, link.dialed = some half ∧ .init v epoch initiator responder x ek = half.init
  answered : ∀ answer, link.answered = some answer →
    ∃ half reply, link.dialed = some half ∧ Answers low high half answer reply
  unanswered : phase = .idle ∨ phase = .connected → link.answered = none
  pending : ∀ answer, phase = .pending answer → link.answered = some answer
  keyed : ∀ key, phase = .keyed key → key ∈ written ∧
    ∃ answer, link.answered = some answer ∧ key = ⟨answer.epoch, answer.psk⟩
  resps : ∀ v epoch x ct confirm, .resp v epoch x ct confirm ∈ link.toInitiator →
    ∃ half answer, link.dialed = some half ∧ link.answered = some answer ∧
      Answers low high half answer (.resp v epoch x ct confirm)
  acks : ∀ v epoch, .ack v epoch ∈ link.toInitiator →
    ∃ answer, link.answered = some answer ∧ ⟨answer.epoch, answer.psk⟩ ∈ written
  confirmed : ∀ key, link.dialing = .waitAck key →
    ∃ answer, link.answered = some answer ∧ key = ⟨answer.epoch, answer.psk⟩

namespace Link.Sound

variable {low high : Key} {written : List Installed} {phase : Phase} {link : Link}
  {rest : List Message} {key : Installed}

theorem mono {more : List Installed} (h : link.Sound low high written phase)
    (hmore : written ⊆ more) : link.Sound low high more phase :=
  { h with
    keyed := fun key hkey => ⟨hmore (h.keyed key hkey).1, (h.keyed key hkey).2⟩
    acks := fun v epoch hack => by
      obtain ⟨answer, hanswer, hwritten⟩ := h.acks v epoch hack
      exact ⟨answer, hanswer, hmore hwritten⟩ }

/-- An exchange that is over has nothing to answer for. -/
theorem close (h : link.Sound low high written phase) : link.Sound low high written .closed :=
  { h with
    unanswered := fun hphase => by rcases hphase with hphase | hphase <;> exact nomatch hphase
    pending := nofun
    keyed := nofun }

/-- A stream nobody has used. -/
theorem unused : ({} : Link).Sound low high written .idle where
  idle _ := rfl
  unanswered _ := rfl
  dialed _ h := nomatch h
  waiting _ h := nomatch h
  inits _ _ _ _ _ _ h := nomatch h
  answered _ h := nomatch h
  pending _ h := nomatch h
  keyed _ h := nomatch h
  resps _ _ _ _ _ h := nomatch h
  acks _ _ h := nomatch h
  confirmed _ h := nomatch h

section

variable (h : link.Sound low high written phase)
include h

/-- The initiator gives up. -/
theorem give_up (hrest : rest ⊆ link.toInitiator) :
    { link with dialing := .over, toInitiator := rest : Link }.Sound low high written phase :=
  { h with
    idle := nofun
    waiting := nofun
    resps := fun v epoch x ct confirm hmem => h.resps v epoch x ct confirm (hrest hmem)
    acks := fun v epoch hmem => h.acks v epoch (hrest hmem)
    confirmed := nofun }

/-- A rejection under way says nothing. -/
theorem rejected (v : Nat) (reason : String) (lastEpoch : Nat) (hrest : rest ⊆ link.toResponder) :
    { link with
      toResponder := rest
      toInitiator := link.toInitiator ++ [.reject v reason lastEpoch] : Link }.Sound low high
        written phase :=
  { h with
    inits := fun v epoch initiator responder x ek hmem =>
      h.inits v epoch initiator responder x ek (hrest hmem)
    resps := fun v epoch x ct confirm hmem =>
      h.resps v epoch x ct confirm (by simpa using hmem)
    acks := fun v epoch hmem => h.acks v epoch (by simpa using hmem) }

/-- A message the responder has read. -/
theorem read (hrest : rest ⊆ link.toResponder) :
    { link with toResponder := rest : Link }.Sound low high written phase :=
  { h with
    inits := fun v epoch initiator responder x ek hmem =>
      h.inits v epoch initiator responder x ek (hrest hmem) }

end

/-- The responder answers the `init` that was sent. -/
theorem answer {reply : Message} {half : Responder}
    (h : link.Sound low high written .connected) {message : Message}
    (hmessage : message ∈ link.toResponder) (hrest : rest ⊆ link.toResponder)
    {lastEpoch secret coins : Nat}
    (hrespond : respond high low (.secret (staticAgreement high low)) lastEpoch message
      secret coins =
      .ok (half, reply)) :
    { link with
      toResponder := rest
      toInitiator := link.toInitiator ++ [reply]
      answered := some half : Link }.Sound low high written (.pending half) := by
  obtain ⟨epoch, x, ek, dh, -, -, -, rfl, -, hreply⟩ := respond_ok hrespond
  obtain ⟨dialed, hdialed, hinit⟩ := h.inits _ _ _ _ _ _ hmessage
  rw [hinit] at hrespond
  have hanswers : Answers low high dialed half reply := ⟨lastEpoch, secret, coins, hrespond⟩
  have hnone := h.unanswered (.inr rfl)
  -- nothing of this stream was answered before
  have hnever : ∀ {P : Responder → Prop}, ¬ ∃ answer, link.answered = some answer ∧ P answer := by
    rintro P ⟨answer, hanswer, -⟩
    exact nomatch hnone.symm.trans hanswer
  exact
    { idle := h.idle
      dialed := h.dialed
      waiting := h.waiting
      inits := fun v epoch initiator responder x ek hmem =>
        h.inits v epoch initiator responder x ek (hrest hmem)
      answered := fun answer hanswer => by
        cases hanswer
        exact ⟨dialed, reply, hdialed, hanswers⟩
      unanswered := fun hphase => by rcases hphase with hphase | hphase <;> exact nomatch hphase
      pending := fun answer hphase => congrArg some (Phase.pending.inj hphase)
      keyed := nofun
      resps := fun v epoch x ct confirm hmem => by
        rcases List.mem_append.mp hmem with hmem | hmem
        · obtain ⟨-, answer, -, hanswer, -⟩ := h.resps v epoch x ct confirm hmem
          exact nomatch hnone.symm.trans hanswer
        · rw [List.mem_singleton.mp hmem]
          exact ⟨dialed, half, hdialed, rfl, hanswers⟩
      acks := fun v epoch hmem => by
        rcases List.mem_append.mp hmem with hmem | hmem
        · exact absurd (h.acks v epoch hmem) hnever
        · rw [hreply] at hmem
          exact nomatch List.mem_singleton.mp hmem
      confirmed := fun key hkey => absurd (h.confirmed key hkey) hnever }

section

variable (h : link.Sound low high written phase)
include h

/-- The responder has written the key of the half that answered. -/
theorem write {half : Responder}
    (hphase : phase = .pending half) (hkey : key = ⟨half.epoch, half.psk⟩)
    (hwritten : key ∈ written) : link.Sound low high written (.keyed key) :=
  { h with
    unanswered := fun hother => by rcases hother with hother | hother <;> exact nomatch hother
    pending := nofun
    keyed := fun other hother => by
      cases hother
      exact ⟨hwritten, half, h.pending half hphase, hkey⟩ }

/-- The responder acknowledges the key it has written. -/
theorem acknowledge (hphase : phase = .keyed key) (v epoch : Nat) :
    { link with toInitiator := link.toInitiator ++ [.ack v epoch] : Link }.Sound low high written
      phase :=
  { h with
    resps := fun v epoch x ct confirm hmem => h.resps v epoch x ct confirm (by simpa using hmem)
    acks := fun v epoch hmem => by
      rcases List.mem_append.mp hmem with hmem | -
      · exact h.acks v epoch hmem
      · obtain ⟨hwritten, answer, hanswer, rfl⟩ := h.keyed key hphase
        exact ⟨answer, hanswer, hwritten⟩ }

/-- The initiator accepts the response on the stream: its key is the answered one. -/
theorem confirm {reply : Message}
    {half : Initiator} (hhalf : link.dialing = .waitResponse half) {message : Message}
    {psk : Psk} (hmessage : link.toInitiator = message :: rest)
    (hfinish : half.finish message = .ok (psk, reply)) :
    { link with
      dialing := .waitAck ⟨half.epoch, psk⟩
      toInitiator := rest
      toResponder := link.toResponder ++ [reply] : Link }.Sound low high written phase := by
  obtain ⟨x, ct, dh, -, hresponse, -, hreply⟩ := Initiator.finish_ok hfinish
  have hrest : ∀ m ∈ rest, m ∈ link.toInitiator := fun m hm => hmessage ▸ List.mem_cons_of_mem _ hm
  have hmem : message ∈ link.toInitiator := hmessage ▸ List.mem_cons_self
  rw [hresponse] at hmem
  -- A response on the stream answers the half dialed on it, which is the one waiting.
  obtain ⟨dialed, answer, hdialed, hanswer, hanswers⟩ := h.resps _ _ _ _ _ hmem
  cases (h.waiting half hhalf).symm.trans hdialed
  rw [← hresponse] at hanswers
  obtain ⟨hepoch, hpsk⟩ := finish_agrees (h.dialed _ hdialed) hanswers hfinish
  exact
    { h with
      idle := nofun
      waiting := nofun
      inits := fun v epoch initiator responder x ek hmem => by
        rcases List.mem_append.mp hmem with hmem | hmem
        · exact h.inits v epoch initiator responder x ek hmem
        · rw [hreply] at hmem
          exact nomatch List.mem_singleton.mp hmem
      resps := fun v epoch x ct confirm hmem => h.resps v epoch x ct confirm (hrest _ hmem)
      acks := fun v epoch hmem => h.acks v epoch (hrest _ hmem)
      confirmed := fun key hkey => by
        cases hkey
        exact ⟨answer, hanswer, by rw [hepoch, hpsk]⟩ }

/-- An acknowledged key is written at the responder. -/
theorem acknowledged {result : Installed} (hwait : link.dialing = .waitAck key)
    {message : Message} (hmem : message ∈ link.toInitiator)
    (hack : Pq.acknowledged key message = .ok result) : result ∈ written := by
  cases message with
  | ack v acked =>
    unfold Pq.acknowledged at hack
    dsimp only at hack
    split at hack
    · cases hack
      -- An `Ack` on the stream is sent after the answered key was written.
      obtain ⟨answer, hanswer, hwritten⟩ := h.acks v acked hmem
      obtain ⟨confirmed, hconfirmed, rfl⟩ := h.confirmed key hwait
      cases hanswer.symm.trans hconfirmed
      exact hwritten
    · exact nomatch hack
  | init | resp | confirm | reject => exact nomatch hack

end

end Link.Sound

def Pair.Sound (pair : Pair) : Prop :=
  ∀ i, (pair.links i).Sound pair.host.peer pair.host.own pair.host.written
    (pair.host.exchanges i).phase

namespace Pair

variable {pair : Pair} {i : Nat} {link : Link}

/-- A step on one stream: the others keep their exchange, and no written key is lost. -/
theorem sound_of_link {host : Host} (h : pair.Sound) (hown : host.own = pair.host.own)
    (hpeer : host.peer = pair.host.peer) (hwritten : pair.host.written ⊆ host.written)
    (hothers : ∀ j, j ≠ i → (host.exchanges j).phase = (pair.host.exchanges j).phase)
    (hlink : link.Sound pair.host.peer pair.host.own host.written (host.exchanges i).phase) :
    { pair.setLink i link with host := host : Pair }.Sound := by
  intro j
  by_cases hj : j = i
  · subst hj
    simpa [setLink, hown, hpeer] using hlink
  · have hother := (h j).mono hwritten
    rw [← hothers j hj, ← hown, ← hpeer] at hother
    simpa [setLink, hj] using hother

/-- A step of the initiator alone. -/
theorem setLink_sound (h : pair.Sound)
    (hlink : link.Sound pair.host.peer pair.host.own pair.host.written
      (pair.host.exchanges i).phase) :
    (pair.setLink i link).Sound :=
  sound_of_link h rfl rfl (fun _ hkey => hkey) (fun _ _ => rfl) hlink

section

variable (h : pair.Sound)
include h

/-- The exchange of one stream moves on, writing nothing. -/
theorem move_sound {phase : Phase}
    (hlink : link.Sound pair.host.peer pair.host.own pair.host.written phase) :
    { pair.setLink i link with host := pair.host.move i phase : Pair }.Sound := by
  refine sound_of_link h rfl rfl (fun _ hkey => hkey) (fun j hj => ?_) ?_
  · rw [Host.move_phase, if_neg hj]
  · rw [Host.move_phase, if_pos rfl]
    exact hlink

theorem dial_sound (i x25519 dk : Nat) : (pair.dial i x25519 dk).Sound := by
  unfold dial
  dsimp only
  split
  · next epoch hidle hepoch =>
    split
    · next half init hok =>
      obtain ⟨rfl, rfl⟩ := initiate_ok hok
      -- an idle stream was never answered
      have hnone : ∀ answer, (pair.links i).answered ≠ some answer := by
        intro answer hanswer
        obtain ⟨other, -, hother, -⟩ := (h i).answered answer hanswer
        exact nomatch ((h i).idle hidle).symm.trans hother
      refine setLink_sound h ?_
      exact
        { idle := nofun
          dialed := fun half hhalf => by
            cases hhalf
            exact ⟨rfl, rfl, rfl⟩
          waiting := fun half hhalf => congrArg some (Dialing.waitResponse.inj hhalf)
          inits := fun v epoch initiator responder x ek hmem =>
            ⟨_, rfl, List.mem_singleton.mp hmem⟩
          answered := nofun
          unanswered := fun _ => rfl
          pending := fun answer hphase => absurd ((h i).pending answer hphase) (hnone answer)
          keyed := fun key hphase => by
            obtain ⟨-, answer, hanswer, -⟩ := (h i).keyed key hphase
            exact absurd hanswer (hnone answer)
          resps := nofun
          acks := nofun
          confirmed := nofun }
    · exact h
  · exact h

/-- A step of the responder that leaves the stream as it is. -/
theorem host_sound {phase : Phase}
    (hlink : (pair.links i).Sound pair.host.peer pair.host.own pair.host.written phase) :
    { pair with host := pair.host.move i phase : Pair }.Sound := by
  have hmoved := move_sound (i := i) h hlink
  simpa [setLink] using hmoved

theorem accept_sound (i : Nat) : (pair.accept i).Sound := by
  unfold accept
  split
  · unfold Host.connect
    split
    · next hidle =>
      have hconnected : (pair.links i).Sound pair.host.peer pair.host.own pair.host.written
          .connected :=
        { (h i) with
          unanswered := fun _ => (h i).unanswered (.inl hidle)
          pending := nofun
          keyed := nofun }
      intro j
      have hother := h j
      by_cases hj : j = i
      · subst hj
        simpa [Host.set] using hconnected
      · simpa [Host.set, hj] using hother
    · exact h
  · exact h

theorem readResponder_sound (i secret coins : Nat) (deviceOk : Bool) :
    (pair.readResponder i secret coins deviceOk).Sound := by
  unfold readResponder
  dsimp only
  split
  · exact h
  · next message rest hlink =>
    have hmessage : message ∈ (pair.links i).toResponder := hlink ▸ List.mem_cons_self
    have hrest : rest ⊆ (pair.links i).toResponder := fun m hm =>
      hlink ▸ List.mem_cons_of_mem message hm
    split
    · next hphase =>
      -- the `init`
      have hconnected := h i
      rw [hphase] at hconnected
      unfold Host.answer
      dsimp only
      rw [hphase]
      dsimp only
      split
      · next half reply hrespond =>
        simp only [halfOf, Host.move_phase, if_true]
        exact move_sound h (hconnected.answer hmessage hrest hrespond)
      · next error _ =>
        simp only [halfOf, Host.move_phase, if_true]
        exact move_sound h ((h i).rejected VERSION _ _ hrest).close
    · next half hphase =>
      -- the confirmation
      unfold Host.accept
      dsimp only
      rw [hphase]
      dsimp only
      split
      · next psk hfinish =>
        cases deviceOk with
        | false => exact move_sound h ((h i).rejected VERSION _ _ hrest).close
        | true =>
          have hpsk := (Responder.finish_ok.mp hfinish).2
          refine sound_of_link h rfl rfl (fun _ hkey => List.mem_cons_of_mem _ hkey)
            (fun j hj => ?_) ?_
          · rw [if_pos rfl, Host.write_phase, if_neg hj]
          · rw [if_pos rfl, Host.write_phase, if_pos rfl, List.append_nil]
            have hgrown := ((h i).read hrest).mono
              (fun _ hkey => List.mem_cons_of_mem ⟨half.epoch, psk⟩ hkey)
            exact hgrown.write hphase (by rw [hpsk]) List.mem_cons_self
      · rw [List.append_nil]
        exact move_sound h ((h i).read hrest).close
    · exact h

theorem record_sound (i : Nat) : (pair.record i).Sound := by
  unfold record Host.record
  dsimp only
  split
  · next key hphase =>
    have hacked := ((h i).acknowledge hphase VERSION key.epoch).close
    refine sound_of_link h rfl rfl (fun _ hkey => hkey) (fun j hj => ?_) ?_
    · exact (Host.move_phase pair.host i j .closed).trans (if_neg hj)
    · have hclosed := (Host.move_phase pair.host i i .closed).trans (if_pos rfl)
      rw [← hclosed] at hacked
      exact hacked
  · simp only [List.append_nil]
    exact setLink_sound h (h i)

end

theorem readInitiator_sound (h : pair.Sound) (i : Nat) (deviceOk : Bool) :
    (pair.readInitiator i deviceOk).Sound := by
  unfold readInitiator
  dsimp only
  split
  · exact h
  · next key reply hprogress =>
    refine setLink_sound h ?_
    unfold Link.progress at hprogress
    split at hprogress
    · next message rest half hmessages hdialing =>
      split at hprogress
      · next psk confirm hfinish =>
        cases hprogress
        rw [hmessages]
        exact (h i).confirm hdialing hmessages hfinish
      · exact nomatch hprogress
    · exact nomatch hprogress
    · exact nomatch hprogress
  · -- what the initiator records is its own: no stream and no responder changes
    exact setLink_sound h ((h i).give_up (List.tail_subset _))

theorem step_sound (pair : Pair) (transport : Transport) (h : pair.Sound) :
    (pair.step transport).Sound := by
  cases transport with
  | dial i x25519 dk => exact dial_sound h i x25519 dk
  | accept i => exact accept_sound h i
  | toResponder i secret coins deviceOk => exact readResponder_sound h i secret coins deviceOk
  | record i => exact record_sound h i
  | toInitiator i deviceOk => exact readInitiator_sound h i deviceOk
  | breakInitiator i => exact setLink_sound h ((h i).give_up fun _ hm => hm)
  | breakResponder i =>
    show { pair with host := pair.host.abort i : Pair }.Sound
    unfold Host.abort
    split
    · exact host_sound h (h i).close
    · exact h

/-- A pair before any exchange, with what both sides remember. -/
def start (low high : Key) (initiatorTrack responderTrack : Track) : Pair where
  host := Host.start high low responderTrack
  track := initiatorTrack

/-- A key the initiator installs from a sound state is written at the responder. -/
theorem Sound.installs (h : pair.Sound) {transport : Transport} {key : Installed}
    (hinstalls : pair.installs transport = some key) : key ∈ pair.host.written := by
  unfold Pair.installs at hinstalls
  split at hinstalls
  · next i deviceOk =>
    split at hinstalls
    · next result hprogress =>
      obtain rfl : result = key := by
        cases deviceOk with
        | true => exact Option.some.inj hinstalls
        | false => exact nomatch hinstalls
      unfold Link.progress at hprogress
      split at hprogress
      · split at hprogress
        · exact nomatch hprogress
        · exact nomatch hprogress
      · next message rest waited hmessages hdialing =>
        -- Installing needs an `Ack`, read while one is awaited.
        have hack := Progress.ends.inj hprogress
        exact (h i).acknowledged hdialing (hmessages ▸ List.mem_cons_self) hack
      · exact nomatch hprogress
    · exact nomatch hinstalls
  · exact nomatch hinstalls

/-- Whenever the initiator installs a key, the responder has already written it: in every
run over streams that carry the two ends' messages and may break anywhere. -/
theorem run_installs_written (low high : Key) (initiatorTrack responderTrack : Track)
    (transports : List Transport) (transport : Transport) (key : Installed) :
    let pair := run Pair.step (start low high initiatorTrack responderTrack) transports
    pair.installs transport = some key → key ∈ pair.host.written := by
  have hsound : (run Pair.step (start low high initiatorTrack responderTrack) transports).Sound :=
    run_invariant step_sound transports fun _ => Link.Sound.unused
  exact fun hinstalls => hsound.installs hinstalls

/-- The initiator's device changes as `installs` says, and in no other step. -/
theorem step_device (pair : Pair) (transport : Transport) :
    (pair.step transport).device = (pair.installs transport).or pair.device := by
  cases transport with
  | toInitiator i deviceOk =>
    simp only [step, readInitiator, installs]
    cases hprogress : (pair.links i).progress with
    | waits | confirms key confirm => cases deviceOk <;> rfl
    | ends outcome =>
      cases outcome with
      | ok key => cases deviceOk <;> rfl
      | error error => rfl
  | dial i x25519 dk =>
    simp only [step, dial, installs, Option.none_or]
    split
    · split <;> rfl
    · rfl
  | accept i =>
    simp only [step, accept, installs, Option.none_or]
    split <;> rfl
  | toResponder i secret coins deviceOk =>
    simp only [step, readResponder, installs, Option.none_or]
    split
    · rfl
    · split <;> rfl
  | record i | breakInitiator i | breakResponder i => rfl

end Pair

end BlakTail.Pq
