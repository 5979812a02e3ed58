import Mathlib

/-!
# Symbolic Cryptography

Values of a cryptographic protocol as terms: two values are equal exactly when they
were computed in the same way, so key derivation and authentication codes are injective,
and nothing can be taken apart except joined values.

An attacker holds some atomic secrets and sees what is sent.  `Derives` is what it can
compute from that; `Derives.mac_seen` says that a code under a key it cannot compute
was sent by somebody who could.
-/

namespace BlakTail.Foundation

/-- Values over public data `δ` and atomic secrets `ι`. -/
inductive Term (δ ι : Type) where
  | data (d : δ)
  | secret (i : ι)
  | join (a b : Term δ ι)
  | kdf (label : String) (salt : δ) (input : Term δ ι)
  | mac (key : Term δ ι) (message : δ)
  deriving DecidableEq

variable {δ ι : Type} {held : ι → Prop} {seen : List (Term δ ι)}

/-- What an attacker with the secrets `held` can compute from what it has seen. -/
inductive Derives (held : ι → Prop) (seen : List (Term δ ι)) : Term δ ι → Prop where
  | seen {t : Term δ ι} (h : t ∈ seen) : Derives held seen t
  | data (d : δ) : Derives held seen (.data d)
  | secret {i : ι} (h : held i) : Derives held seen (.secret i)
  | join {a b : Term δ ι} (ha : Derives held seen a) (hb : Derives held seen b) :
      Derives held seen (.join a b)
  | left {a b : Term δ ι} (h : Derives held seen (.join a b)) : Derives held seen a
  | right {a b : Term δ ι} (h : Derives held seen (.join a b)) : Derives held seen b
  | kdf (label : String) (salt : δ) {t : Term δ ι} (h : Derives held seen t) :
      Derives held seen (.kdf label salt t)
  | mac {key : Term δ ι} (message : δ) (h : Derives held seen key) :
      Derives held seen (.mac key message)

/-- The value needs no secret the attacker lacks, apart from codes it has seen. -/
def Revealed (held : ι → Prop) (seen : List (Term δ ι)) : Term δ ι → Prop
  | .data _ => True
  | .secret i => held i
  | .join a b => Revealed held seen a ∧ Revealed held seen b
  | .kdf _ _ input => Revealed held seen input
  | .mac key message => Revealed held seen key ∨ .mac key message ∈ seen

/-- Where only revealed values are sent, only revealed values can be computed. -/
theorem Derives.revealed {t : Term δ ι} (h : Derives held seen t)
    (hseen : ∀ t ∈ seen, Revealed held seen t) : Revealed held seen t := by
  induction h with
  | seen h => exact hseen _ h
  | data d => trivial
  | secret h => exact h
  | join _ _ iha ihb => exact ⟨iha, ihb⟩
  | left _ ih => exact ih.1
  | right _ ih => exact ih.2
  | kdf _ _ _ ih => exact ih
  | mac _ _ ih => exact .inl ih

/-- Codes are unforgeable: one under a key with a missing secret has been sent. -/
theorem Derives.mac_seen {key : Term δ ι} {message : δ}
    (h : Derives held seen (.mac key message)) (hseen : ∀ t ∈ seen, Revealed held seen t)
    (hkey : ¬ Revealed held seen key) : .mac key message ∈ seen :=
  (h.revealed hseen).resolve_left hkey

end BlakTail.Foundation
