import BlakTail.Pq.Stream

/-!
# The Initiator's Epochs

The exchanges of one pair at the initiator, one after the other, against a network that delivers
what it likes.  Each is for `last_epoch + 1`, and ends with what its replies say: a key, an error,
or a rejection that names the responder's last epoch.  A rejection is not authenticated, and the
initiator moves past the epoch it names.
-/

namespace BlakTail.Pq

open Foundation

/-- The next message; a line that cannot be read ends the messages. -/
def recv : List Message → Except PqError Message
  | [] => .error (.malformed "frame")
  | message :: _ => .ok message

/-- `run_initiator` after its `init`, with the messages that arrive. -/
def Initiator.conclude (half : Initiator) (replies : List Message) : Except PqError Installed := do
  let response ← recv replies
  let (psk, _) ← half.finish response
  let reply ← recv replies.tail
  acknowledged ⟨half.epoch, psk⟩ reply

/-- One exchange: its fresh secrets, the messages that arrive, and whether the device takes the
key. -/
structure Attempt where
  x25519 : Nat
  dk : Nat
  replies : List Message
  deviceOk : Bool := true

def runInitiator (own peer : Key) (epoch : Nat) (attempt : Attempt) : Except PqError Installed := do
  let (half, _) ← initiate own peer (.secret (staticAgreement own peer)) epoch attempt.x25519
    attempt.dk
  half.conclude attempt.replies

def Track.exchange (own peer : Key) (track : Track) (attempt : Attempt) : Track :=
  match track.nextEpoch with
  | none => track
  | some epoch =>
    track.recordInitiatorOutcome (runInitiator own peer epoch attempt) attempt.deviceOk

/-- The messages an exchange reads: a second one only if the first is its response. -/
def Initiator.reads (half : Initiator) : List Message → List Message
  | [] => []
  | response :: rest =>
    match half.finish response with
    | .ok _ => response :: rest.take 1
    | .error _ => [response]

/-- The last epochs that the rejections among messages name. -/
def rejections (messages : List Message) : List Nat :=
  messages.filterMap fun
    | .reject _ _ lastEpoch => some lastEpoch
    | _ => none

/-- No rejection the exchange reads names an epoch past `limit`. -/
def RejectedWithin (low high : Key) (limit : Nat) (track : Track) (attempt : Attempt) : Prop :=
  ∀ epoch ∈ track.nextEpoch, ∀ half init, initiate low high (.secret (staticAgreement low high))
    epoch attempt.x25519 attempt.dk = .ok (half, init) →
    ∀ lastEpoch ∈ rejections (half.reads attempt.replies), lastEpoch ≤ limit

/-! ## What an exchange ends with -/

theorem decodeField_eq_error {α : Type} {value : Option α} {name : String} {e : PqError} :
    decodeField value name = .error e ↔ value = none ∧ PqError.malformed name = e := by
  cases value <;> simp [decodeField]

variable {half : Initiator} {replies : List Message} {reason : String} {lastEpoch : Nat}

/-- Only a rejection makes the initiator's half end with one. -/
theorem finish_rejected {message : Message}
    (h : half.finish message = .error (.rejected reason lastEpoch)) :
    ∃ v text, message = .reject v text lastEpoch := by
  unfold Initiator.finish at h
  cases message with
  | reject v text last =>
    simp only [Except.error.injEq, PqError.rejected.injEq] at h
    exact ⟨v, text, by rw [h.2]⟩
  | resp v epoch x25519 mlkemCt confirm =>
    have hweak : ∀ x, diffieHellman half.x25519 x ≠ .error (.rejected reason lastEpoch) := by
      intro x
      cases x <;> simp [diffieHellman]
    -- every check of a response has an error of its own
    simp [-bind_pure_comp, bind_error_iff, failIf_eq_error, decodeField_eq_error, hweak, pure,
      Except.pure] at h
  | init | confirm | ack => cases h

/-- The last message brings the key, a rejection, or neither. -/
theorem acknowledged_cases (key : Installed) (message : Message) :
    acknowledged key message = .ok key ∨ acknowledged key message = .error .unexpected ∨
      ∃ v text last, message = .reject v text last ∧
        acknowledged key message = .error (.rejected (rejectReason text) last) := by
  unfold acknowledged
  split
  · split <;> simp
  · exact .inr (.inr ⟨_, _, _, rfl, rfl⟩)
  · exact .inr (.inl rfl)

/-- The last epoch of a rejection is one that the messages read name. -/
theorem conclude_rejected (h : half.conclude replies = .error (.rejected reason lastEpoch)) :
    lastEpoch ∈ rejections (half.reads replies) := by
  have hnames : ∀ v text, Message.reject v text lastEpoch ∈ half.reads replies →
      lastEpoch ∈ rejections (half.reads replies) :=
    fun v text hmem => List.mem_filterMap.mpr ⟨_, hmem, rfl⟩
  cases replies with
  | nil => cases h
  | cons response rest =>
    change (half.finish response >>= _) = _ at h
    rcases bind_error_iff.mp h with hfinish | ⟨⟨psk, confirm⟩, hfinish, hrest⟩
    · obtain ⟨v, text, rfl⟩ := finish_rejected hfinish
      exact hnames v text (by simp [Initiator.reads, hfinish])
    · cases rest with
      | nil => cases hrest
      | cons reply rest =>
        rcases acknowledged_cases ⟨half.epoch, psk⟩ reply with
          hok | hother | ⟨v, text, last, rfl, hno⟩
        · cases hok.symm.trans hrest
        · cases hother.symm.trans hrest
        · cases hno.symm.trans hrest
          exact hnames v text (by simp [Initiator.reads, hfinish])

/-- A key is for the epoch of its half. -/
theorem conclude_ok {key : Installed} (h : half.conclude replies = .ok key) :
    key.epoch = half.epoch := by
  obtain ⟨response, -, h⟩ := bind_ok_iff.mp h
  obtain ⟨⟨psk, confirm⟩, -, h⟩ := bind_ok_iff.mp h
  obtain ⟨reply, -, h⟩ := bind_ok_iff.mp h
  rcases acknowledged_cases ⟨half.epoch, psk⟩ reply with hok | hother | ⟨v, text, last, -, hno⟩
  · cases hok.symm.trans h
    rfl
  · cases hother.symm.trans h
  · cases hno.symm.trans h

/-! ## An honest responder -/

/-- An exchange for the epoch with a responder that remembers `lastEpoch` completes on both sides,
whatever the fresh secrets. -/
def Completes (low high : Key) (lastEpoch epoch : Nat) : Prop :=
  ∀ x25519 dk secret coins, ∃ pending response psk confirm,
    let half : Initiator := ⟨epoch, low, high, .secret (staticAgreement low high), x25519, dk⟩
    respond high low (.secret (staticAgreement high low)) lastEpoch half.init secret coins =
      .ok (pending, response) ∧ half.finish response = .ok (psk, confirm) ∧
    pending.finish confirm = .ok psk ∧ runInitiator low high epoch
      ⟨x25519, dk, [response, .ack VERSION pending.epoch], true⟩ = .ok ⟨epoch, psk⟩

theorem completes_of_lt {low high : Key} (hkeys : low < high) {epoch : Nat}
    (hnewer : lastEpoch < epoch) : Completes low high lastEpoch epoch := by
  intro x25519 dk secret coins
  let agreed : Value := .secret (staticAgreement low high)
  let half : Initiator := ⟨epoch, low, high, agreed, x25519, dk⟩
  have hrole : ¬ high ≤ low := Nat.not_le.mpr hkeys
  have hfresh : ¬ epoch ≤ lastEpoch := Nat.not_le.mpr hnewer
  -- what either side derives, it derives from the same secrets
  let th : Transcript := half.transcript (.point secret) ⟨dk, coins⟩
  let keys := derive (.secret (.kem dk ⟨dk, coins⟩))
    (.secret (.dh (min x25519 secret) (max x25519 secret))) agreed th
  let response : Message := .resp VERSION epoch (some (.point secret)) (some ⟨dk, coins⟩)
    (some (confirmTag keys.2 .responder th))
  have hfinish : half.finish response =
      .ok (keys.1, .confirm VERSION epoch (some (confirmTag keys.2 .initiator th))) := by
    simp [Initiator.finish, response, failIf, decodeField, diffieHellman, decapsulate, half, keys,
      th, agreed]
  refine ⟨⟨epoch, keys.1, confirmTag keys.2 .initiator th⟩, response, keys.1, _, ?_,
    hfinish, Responder.finish_ok.mpr ⟨rfl, rfl⟩, ?_⟩
  · simp only [respond, Initiator.init, failIf, decodeField, diffieHellman, encapsulate,
      staticAgreement_comm high low, Nat.min_comm secret, Nat.max_comm secret]
    simp [hrole, hfresh, response]
    exact ⟨⟨rfl, rfl⟩, rfl⟩
  · have hinitiate : initiate low high agreed epoch x25519 dk = .ok (half, half.init) :=
      if_neg hrole
    unfold runInitiator
    rw [hinitiate]
    show (half.finish response >>= _) = _
    rw [hfinish]
    exact if_pos ⟨rfl, rfl⟩

/-! ## Runs -/

/-- An exchange moves one past what is remembered and what a rejection names. -/
theorem Track.exchange_le {low high : Key} {track : Track} {limit bound : Nat}
    (attempt : Attempt) (hlimit : limit ≤ bound) (htrack : track.lastEpoch ≤ bound)
    (hrejections : RejectedWithin low high limit track attempt) :
    (track.exchange low high attempt).lastEpoch ≤ bound + 1 := by
  unfold exchange
  split
  · omega
  · next epoch hnext =>
    obtain ⟨-, hepoch⟩ := Option.ite_none_right_eq_some.mp hnext
    cases hepoch
    unfold recordInitiatorOutcome
    split
    · next key hkey =>
      obtain ⟨⟨half, init⟩, hinitiate, hconclude⟩ := bind_ok_iff.mp hkey
      obtain ⟨rfl, -⟩ := initiate_ok hinitiate
      have hown : key.epoch = track.lastEpoch + 1 := conclude_ok hconclude
      split
      · exact max_le (by omega) (by omega)
      · omega
    · next reason lastEpoch hrejected =>
      rcases bind_error_iff.mp hrejected with hrole | ⟨⟨half, init⟩, hinitiate, hconclude⟩
      · unfold initiate at hrole
        split at hrole <;> cases hrole
      · have hnamed := hrejections _ hnext half init hinitiate lastEpoch
          (conclude_rejected hconclude)
        exact max_le (by omega) (by omega)
    · exact Nat.le_succ_of_le htrack

theorem Track.run_exchange_le {low high : Key} {track : Track} {limit bound : Nat}
    {attempts : List Attempt} (hlimit : limit ≤ bound) (htrack : track.lastEpoch ≤ bound)
    (hrejections : Along (Track.exchange low high) (RejectedWithin low high limit) track attempts) :
    (run (Track.exchange low high) track attempts).lastEpoch ≤ bound + attempts.length := by
  induction attempts generalizing track bound with
  | nil => exact htrack
  | cons attempt attempts ih =>
    rw [List.length_cons, Nat.add_comm attempts.length, ← Nat.add_assoc]
    exact ih (Nat.le_succ_of_le hlimit) (exchange_le attempt hlimit htrack hrejections.1)
      hrejections.2

/-- Where the remembered epoch and those that the rejections read name leave room for the exchanges
to come, the next epoch does not overflow, and an exchange for it completes with every responder
that remembers an older one. -/
theorem initiator_not_wedged (low high : Key) (track : Track) (attempts : List Attempt)
    (limit : Nat)
    (hkeys : low < high) (hroom : limit + attempts.length < 2 ^ 64 - 1)
    (htrack : track.lastEpoch ≤ limit)
    (hrejections : Along (Track.exchange low high) (RejectedWithin low high limit) track attempts) :
    ∃ epoch, (run (Track.exchange low high) track attempts).nextEpoch = some epoch ∧
      ∀ lastEpoch < epoch, Completes low high lastEpoch epoch :=
  ⟨_, if_pos (Nat.lt_of_le_of_lt (Track.run_exchange_le le_rfl htrack hrejections) hroom),
    fun _ hnewer => completes_of_lt hkeys hnewer⟩

/-- A forged rejection that names the last epoch there is. -/
theorem forged_rejection_overflows :
    (Track.exchange 1 2 {} ⟨10, 11, [.reject VERSION "stale_epoch" (2 ^ 64 - 1)], true⟩).nextEpoch =
      none := by
  decide

theorem initiator_not_wedged_rejected :
    ∃ epoch, (run (Track.exchange 1 2) {}
      [⟨10, 11, [.reject VERSION "stale_epoch" 41], true⟩]).nextEpoch = some epoch ∧
        epoch = 42 := by
  obtain ⟨epoch, hnext, -⟩ := initiator_not_wedged 1 2 {}
    [⟨10, 11, [.reject VERSION "stale_epoch" 41], true⟩] 41 (by decide) (by decide) (by decide)
    ⟨by simp [RejectedWithin, Track.nextEpoch, initiate, Initiator.reads, Initiator.finish,
      rejections], trivial⟩
  exact ⟨epoch, hnext, Option.some.inj (hnext.symm.trans (by decide))⟩

end BlakTail.Pq
