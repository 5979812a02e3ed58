import Mathlib

/-!
# Numbers as Bytes

Unsigned numbers in network order, most significant byte first.
-/

namespace BlakTail.Foundation.Bytes

/-- The last `n` bytes of a number. -/
def toBe : Nat → Nat → List UInt8
  | 0, _ => []
  | n + 1, value => toBe n (value / 256) ++ [UInt8.ofNat (value % 256)]

/-- The number big-endian bytes spell, `from_be_bytes`. -/
def ofBe (bytes : List UInt8) : Nat := bytes.foldl (fun value byte => value * 256 + byte.toNat) 0

@[simp] theorem toBe_length (n value : Nat) : (toBe n value).length = n := by
  induction n generalizing value with
  | zero => rfl
  | succ n ih => rw [toBe, List.length_append, ih, List.length_singleton]

variable (bytes : List UInt8)

theorem ofBe_snoc (byte : UInt8) : ofBe (bytes ++ [byte]) = ofBe bytes * 256 + byte.toNat := by
  rw [ofBe, List.foldl_append]
  rfl

theorem ofBe_lt : ofBe bytes < 256 ^ bytes.length := by
  induction bytes using List.reverseRecOn with
  | nil => exact Nat.one_pos
  | append_singleton bytes byte ih =>
    have hbyte : byte.toNat < 256 := byte.toNat_lt
    rw [ofBe_snoc, List.length_append, List.length_singleton]
    omega

/-- A number that fits into `n` bytes is read back. -/
theorem ofBe_toBe (n value : Nat) (h : value < 256 ^ n) : ofBe (toBe n value) = value := by
  induction n generalizing value with
  | zero =>
    rw [pow_zero, Nat.lt_one_iff] at h
    rw [h]
    rfl
  | succ n ih =>
    have hquotient : value / 256 < 256 ^ n := by
      rw [Nat.div_lt_iff_lt_mul (by decide), ← pow_succ]
      exact h
    have hbyte : (UInt8.ofNat (value % 256)).toNat = value % 256 := by
      exact Nat.mod_mod_of_dvd value (by decide)
    rw [toBe, ofBe_snoc, ih _ hquotient, hbyte]
    omega

/-- Bytes are written back as they were read. -/
theorem toBe_ofBe : toBe bytes.length (ofBe bytes) = bytes := by
  induction bytes using List.reverseRecOn with
  | nil => rfl
  | append_singleton bytes byte ih =>
    have hbyte : byte.toNat < 256 := byte.toNat_lt
    rw [List.length_append, List.length_singleton, toBe, ofBe_snoc]
    have hquotient : (ofBe bytes * 256 + byte.toNat) / 256 = ofBe bytes := by omega
    have hlast : (ofBe bytes * 256 + byte.toNat) % 256 = byte.toNat := by omega
    rw [hquotient, hlast, ih, UInt8.ofNat_toNat]

end BlakTail.Foundation.Bytes
