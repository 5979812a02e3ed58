import BlakTail.Foundation.Deduction
import BlakTail.Foundation.Fallible

/-!
# The Post-Quantum Exchange

Both halves of one key exchange: `initiate`, `Initiator::finish`, `respond` and
`Responder::finish`, with their checks in the source's order.

Cryptography is symbolic.  The static agreement of a pair, an X25519 agreement and a
KEM secret are atomic secrets named by what they were computed from, the same from
either side.  SHA-256 over the transcript is the transcript, and HKDF and HMAC are the
injective constructors of `Term`.  A field of a message is its decoded value, or
nothing where decoding fails.

`Initiator.finish_ok`, `respond_ok` and `Responder.finish_ok` say all there is to know
about a half that succeeds; later modules never unfold the halves.
-/

namespace BlakTail.Pq

open Foundation

/-! ## Values -/

/-- A WireGuard public key, as the number its bytes spell: keys are compared in that
order. -/
abbrev Key := Nat

/-- An X25519 public value: that of an ephemeral secret, or one of low order. -/
inductive X25519 where
  | point (id : Nat)
  | lowOrder (n : Nat)
  deriving DecidableEq

/-- A KEM ciphertext: the key it was made for and the randomness of its maker. -/
structure Ciphertext where
  ek : Nat
  coins : Nat
  deriving DecidableEq

inductive Secret where
  | agreement (low high : Key)
  | dh (low high : Nat)
  | kem (dk : Nat) (ct : Ciphertext)
  deriving DecidableEq

/-- The two ends of an exchange. -/
inductive Role where
  | initiator
  | responder
  deriving DecidableEq

/-- Every public value of one exchange. -/
structure Transcript where
  epoch : Nat
  initiatorWg : Key
  responderWg : Key
  initiatorX25519 : X25519
  mlkemEk : Nat
  responderX25519 : X25519
  mlkemCt : Ciphertext
  deriving DecidableEq

/-- Public data keys and codes are bound to. -/
inductive Bound where
  | hash (transcript : Transcript)
  | tagged (role : Role) (transcript : Transcript)
  deriving DecidableEq

/-- Secret values, keys and codes. -/
abbrev Value := Term Bound Secret

/-- A WireGuard preshared key. -/
abbrev Psk := Value

/-! ## Computations -/

/-- What can end an exchange. -/
inductive PqError where
  | unexpected
  | version
  | malformed (field : String)
  | wrongPeer
  | wrongRole
  | staleEpoch (epoch last : Nat)
  | confirmation
  | weakDh
  | rejected (reason : String) (lastEpoch : Nat)
  | io (error : String)
  | timeout
  deriving DecidableEq

/-- Protocol version. -/
def VERSION : Nat := 2

/-- `static_agreement`: X25519 of one WireGuard key with the other, the same from both
sides. -/
def staticAgreement (own peer : Key) : Secret := .agreement (min own peer) (max own peer)

/-- X25519 of an ephemeral secret with a public value. -/
def diffieHellman (own : Nat) : X25519 → Except PqError Value
  | .point id => .ok (.secret (.dh (min own id) (max own id)))
  | .lowOrder _ => .error .weakDh

def encapsulate (ek coins : Nat) : Ciphertext × Value :=
  (⟨ek, coins⟩, .secret (.kem ek ⟨ek, coins⟩))

/-- Decapsulation: the encapsulated secret, or for a ciphertext made for another key a
secret of its own. -/
def decapsulate (dk : Nat) (ct : Ciphertext) : Value := .secret (.kem dk ct)

/-- The PSK and the key confirmation key. -/
def derive (mlkemSecret x25519Secret staticSecret : Value) (transcript : Transcript) :
    Psk × Value :=
  let ikm := .join mlkemSecret (.join x25519Secret staticSecret)
  (.kdf "blaktail pq-psk v2 wireguard psk" (.hash transcript) ikm,
    .kdf "blaktail pq-psk v2 key confirmation" (.hash transcript) ikm)

/-- One side's key confirmation. -/
def confirmTag (key : Value) (role : Role) (transcript : Transcript) : Value :=
  .mac key (.tagged role transcript)

/-- A decoded field, or the error that names it. -/
def decodeField {α : Type} (value : Option α) (name : String) : Except PqError α :=
  match value with
  | some value => .ok value
  | none => .error (.malformed name)

/-! ## Messages -/

inductive Message where
  | init (v epoch : Nat) (initiator responder : Option Key) (x25519 : Option X25519)
      (mlkemEk : Option Nat)
  | resp (v epoch : Nat) (x25519 : Option X25519) (mlkemCt : Option Ciphertext)
      (confirm : Option Value)
  | confirm (v epoch : Nat) (confirm : Option Value)
  | ack (v epoch : Nat)
  | reject (v : Nat) (reason : String) (lastEpoch : Nat)
  deriving DecidableEq

/-- The first characters of a rejection, as the initiator keeps them. -/
def rejectReason (reason : String) : String := String.ofList (reason.toList.take 64)

/-! ## The halves -/

/-- The initiator's half, with its ephemeral secrets. -/
structure Initiator where
  epoch : Nat
  own : Key
  peer : Key
  staticSecret : Value
  x25519 : Nat
  dk : Nat
  deriving DecidableEq

/-- The transcript an initiator reaches with the responder's values. -/
def Initiator.transcript (state : Initiator) (x25519 : X25519) (ct : Ciphertext) : Transcript where
  epoch := state.epoch
  initiatorWg := state.own
  responderWg := state.peer
  initiatorX25519 := .point state.x25519
  mlkemEk := state.dk
  responderX25519 := x25519
  mlkemCt := ct

/-- Start an exchange with fresh secrets `x25519` and `dk`.  Only the lower key does. -/
def initiate (own peer : Key) (staticSecret : Value) (epoch x25519 dk : Nat) :
    Except PqError (Initiator × Message) :=
  if peer ≤ own then .error .wrongRole
  else .ok (⟨epoch, own, peer, staticSecret, x25519, dk⟩,
    .init VERSION epoch (some own) (some peer) (some (.point x25519)) (some dk))

/-- Check the responder's confirmation; return the PSK and the own confirmation. -/
def Initiator.finish (state : Initiator) (response : Message) : Except PqError (Psk × Message) :=
  match response with
  | .resp v epoch x25519 mlkemCt confirm => do
    failIf (v ≠ VERSION) .version
    failIf (epoch ≠ state.epoch) (.staleEpoch epoch state.epoch)
    let x25519 ← decodeField x25519 "x25519"
    let ct ← decodeField mlkemCt "mlkem_ct"
    let confirm ← decodeField confirm "confirm"
    let dh ← diffieHellman state.x25519 x25519
    let th := state.transcript x25519 ct
    let (psk, confirmKey) := derive (decapsulate state.dk ct) dh state.staticSecret th
    failIf (confirm ≠ confirmTag confirmKey .responder th) .confirmation
    return (psk, .confirm VERSION state.epoch (some (confirmTag confirmKey .initiator th)))
  | .reject _ reason lastEpoch => .error (.rejected (rejectReason reason) lastEpoch)
  | _ => .error .unexpected

/-- The responder's half, waiting for the initiator's confirmation. -/
structure Responder where
  epoch : Nat
  psk : Psk
  expected : Value
  deriving DecidableEq

/-- Answer an `init` from `peer`, which must hold the lower key, with fresh secrets
`secret` and `coins`.  `lastEpoch` is the newest epoch accepted for the pair. -/
def respond (own peer : Key) (staticSecret : Value) (lastEpoch : Nat) (init : Message)
    (secret coins : Nat) : Except PqError (Responder × Message) :=
  match init with
  | .init v epoch initiator responder x25519 mlkemEk => do
    failIf (v ≠ VERSION) .version
    failIf (initiator ≠ some peer || responder ≠ some own) .wrongPeer
    failIf (own ≤ peer) .wrongRole
    failIf (epoch ≤ lastEpoch) (.staleEpoch epoch lastEpoch)
    let initiatorX25519 ← decodeField x25519 "x25519"
    let ek ← decodeField mlkemEk "mlkem_ek"
    let (ct, kemSecret) := encapsulate ek coins
    let dh ← diffieHellman secret initiatorX25519
    let th : Transcript := ⟨epoch, peer, own, initiatorX25519, ek, .point secret, ct⟩
    let (psk, confirmKey) := derive kemSecret dh staticSecret th
    return (⟨epoch, psk, confirmTag confirmKey .initiator th⟩,
      .resp VERSION epoch (some (.point secret)) (some ct)
        (some (confirmTag confirmKey .responder th)))
  | _ => .error .unexpected

/-- Check the initiator's confirmation. -/
def Responder.finish (pending : Responder) (confirm : Message) : Except PqError Psk :=
  match confirm with
  | .confirm v epoch confirm => do
    failIf (v ≠ VERSION) .version
    failIf (epoch ≠ pending.epoch) (.staleEpoch epoch pending.epoch)
    let tag ← decodeField confirm "confirm"
    failIf (tag ≠ pending.expected) .confirmation
    return pending.psk
  | _ => .error .unexpected

/-! ## A half that succeeds -/

theorem decodeField_eq_ok {α : Type} {value : Option α} {name : String} {a : α} :
    decodeField value name = .ok a ↔ value = some a := by
  cases value <;> simp [decodeField]

/-- What the initiator accepts, and what it then holds and sends. -/
theorem Initiator.finish_ok {state : Initiator} {response reply : Message} {psk : Psk}
    (h : state.finish response = .ok (psk, reply)) :
    ∃ x ct dh, diffieHellman state.x25519 x = .ok dh ∧
      let th := state.transcript x ct
      let keys := derive (decapsulate state.dk ct) dh state.staticSecret th
      response = .resp VERSION state.epoch (some x) (some ct)
        (some (confirmTag keys.2 .responder th)) ∧
      psk = keys.1 ∧
      reply = .confirm VERSION state.epoch (some (confirmTag keys.2 .initiator th)) := by
  unfold finish at h
  cases response with
  | resp v epoch x25519 mlkemCt confirm =>
    -- Every check passed, so every field is what it was compared with.
    simp only [bind_ok_iff, failIf_eq_ok, decodeField_eq_ok] at h
    obtain ⟨-, hv, -, hepoch, x, rfl, ct, rfl, tag, rfl, dh, hdh, -, htag, hresult⟩ := h
    obtain rfl : v = VERSION := by simpa using hv
    obtain rfl : epoch = state.epoch := by simpa using hepoch
    obtain rfl : tag = _ := by simpa using htag
    have hresult := Prod.mk.inj (Except.ok.inj hresult)
    exact ⟨x, ct, dh, hdh, rfl, hresult.1.symm, hresult.2.symm⟩
  | reject v reason lastEpoch | init | confirm | ack => exact nomatch h

/-- What the responder answers, and what it then holds and sends. -/
theorem respond_ok {own peer : Key} {staticSecret : Value} {lastEpoch secret coins : Nat}
    {init reply : Message} {pending : Responder}
    (h : respond own peer staticSecret lastEpoch init secret coins = .ok (pending, reply)) :
    ∃ epoch x ek dh, diffieHellman secret x = .ok dh ∧ peer < own ∧ lastEpoch < epoch ∧
      init = .init VERSION epoch (some peer) (some own) (some x) (some ek) ∧
      let th : Transcript := ⟨epoch, peer, own, x, ek, .point secret, ⟨ek, coins⟩⟩
      let keys := derive (encapsulate ek coins).2 dh staticSecret th
      pending = ⟨epoch, keys.1, confirmTag keys.2 .initiator th⟩ ∧
      reply = .resp VERSION epoch (some (.point secret)) (some ⟨ek, coins⟩)
        (some (confirmTag keys.2 .responder th)) := by
  unfold respond at h
  cases init with
  | init v epoch initiator responder x25519 mlkemEk =>
    simp only [bind_ok_iff, failIf_eq_ok, decodeField_eq_ok] at h
    obtain ⟨-, hv, -, hpair, -, hrole, -, hepoch, x, rfl, ek, rfl, dh, hdh, hresult⟩ := h
    obtain rfl : v = VERSION := by simpa using hv
    obtain ⟨rfl, rfl⟩ : initiator = some peer ∧ responder = some own := by simpa using hpair
    have hresult := Prod.mk.inj (Except.ok.inj hresult)
    exact ⟨epoch, x, ek, dh, hdh, by simpa using hrole, by simpa using hepoch, rfl,
      hresult.1.symm, hresult.2.symm⟩
  | resp | confirm | ack | reject => exact nomatch h

/-- What the responder accepts as confirmation. -/
theorem Responder.finish_ok {pending : Responder} {confirm : Message} {psk : Psk} :
    pending.finish confirm = .ok psk ↔
      confirm = .confirm VERSION pending.epoch (some pending.expected) ∧ psk = pending.psk := by
  unfold finish
  cases confirm with
  | confirm v epoch tag =>
    simp only [bind_ok_iff, failIf_eq_ok, decodeField_eq_ok]
    constructor
    · rintro ⟨-, hv, -, hepoch, tag, rfl, -, htag, hresult⟩
      obtain rfl : v = VERSION := by simpa using hv
      obtain rfl : epoch = pending.epoch := by simpa using hepoch
      obtain rfl : tag = pending.expected := by simpa using htag
      exact ⟨rfl, (Except.ok.inj hresult).symm⟩
    · rintro ⟨hconfirm, rfl⟩
      cases hconfirm
      exact ⟨(), by simp, (), by simp, _, rfl, (), by simp, rfl⟩
  | init | resp | ack | reject => simp

end BlakTail.Pq
