import BlakTail.Foundation.Address

/-!
# Hexadecimal Bytes

Two digits a byte, written in lower case and read in either case.
-/

namespace BlakTail.Foundation.Hex

open IpAddr Text

/-- Lower-case hexadecimal, two digits a byte. -/
def encode (bytes : List UInt8) : List Char :=
  bytes.flatMap fun byte => [Nat.digitChar (byte.toNat / 16), Nat.digitChar (byte.toNat % 16)]

/-- Bytes read from pairs of digits in either case. -/
def decode : List Char → Option (List UInt8)
  | [] => some []
  | [_] => none
  | high :: low :: rest =>
    (digitIn 16 high).bind fun x => (digitIn 16 low).bind fun y =>
      (decode rest).map (UInt8.ofNat (x * 16 + y) :: ·)

/-- Pairs of digits. -/
def IsHex (cs : List Char) : Prop :=
  cs.length % 2 = 0 ∧ ∀ c ∈ cs, (digitIn 16 c).isSome

theorem nibbles_lt (byte : UInt8) : byte.toNat / 16 < 16 ∧ byte.toNat % 16 < 16 := by
  have hbyte := byte.toNat_lt
  omega

/-- What holds of sixteen digits holds of all written characters. -/
theorem encode_forall {P : Char → Prop} (hP : ∀ k < 16, P (Nat.digitChar k)) (bytes : List UInt8) :
    ∀ c ∈ encode bytes, P c := by
  intro c hc
  obtain ⟨byte, -, hc⟩ := List.mem_flatMap.mp hc
  obtain ⟨hhigh, hlow⟩ := nibbles_lt byte
  rcases List.mem_pair.mp hc with rfl | rfl
  · exact hP _ hhigh
  · exact hP _ hlow

theorem encode_cons (byte : UInt8) (bytes : List UInt8) :
    encode (byte :: bytes) = Nat.digitChar (byte.toNat / 16) ::
      Nat.digitChar (byte.toNat % 16) :: encode bytes := rfl

theorem length_encode (bytes : List UInt8) : (encode bytes).length = 2 * bytes.length := by
  simp [encode, List.length_flatMap, Nat.mul_comm]

/-- What is written is read back. -/
theorem decode_encode (bytes : List UInt8) : decode (encode bytes) = some bytes := by
  induction bytes with
  | nil => rfl
  | cons byte bytes ih =>
    obtain ⟨hhigh, hlow⟩ := nibbles_lt byte
    have hbyte : UInt8.ofNat (byte.toNat / 16 * 16 + byte.toNat % 16) = byte := by
      rw [Nat.div_add_mod', UInt8.ofNat_toNat]
    simp only [encode_cons, decode, digitIn_digitChar le_rfl hhigh, digitIn_digitChar le_rfl hlow,
      ih, Option.bind_some, Option.map_some, hbyte]

theorem digitIn_spec {c : Char} {d : Nat} (h : digitIn 16 c = some d) :
    d < 16 ∧ c.toNat < 128 ∧ Nat.digitChar d = toAsciiLower c := by
  have hascii : c.toNat < 128 := by
    by_contra hwide
    have hle : ∀ top : Char, top.toNat < 128 → ¬ c ≤ top := fun top htop hc =>
      hwide (lt_of_le_of_lt hc htop)
    simp [digitIn, hle '9' (by decide), hle 'f' (by decide), hle 'F' (by decide)] at h
  have hall : ∀ n < 128, ∀ d ∈ digitIn 16 (Char.ofNat n),
      d < 16 ∧ Nat.digitChar d = toAsciiLower (Char.ofNat n) := by
    decide +kernel
  have hdigit := hall c.toNat hascii d (by rwa [Char.ofNat_toNat])
  rw [Char.ofNat_toNat] at hdigit
  exact ⟨hdigit.1, hascii, hdigit.2⟩

/-- What is read, and that it is written as the same digits. -/
theorem decode_spec (cs : List Char) :
    (∃ bytes, decode cs = some bytes ∧ IsHex cs ∧ encode bytes = cs.map toAsciiLower) ∨
      (decode cs = none ∧ ¬ IsHex cs) := by
  induction cs using decode.induct with
  | case1 => exact .inl ⟨[], rfl, ⟨rfl, nofun⟩, rfl⟩
  | case2 c => exact .inr ⟨rfl, fun h => absurd h.1 Nat.one_ne_zero⟩
  | case3 high low rest ih =>
    have hhex : IsHex (high :: low :: rest) ↔
        (digitIn 16 high).isSome ∧ (digitIn 16 low).isSome ∧ IsHex rest := by
      simp only [IsHex, List.length_cons, List.forall_mem_cons]
      grind
    rw [hhex, decode]
    cases hx : digitIn 16 high with
    | none => exact .inr ⟨rfl, by simp⟩
    | some x =>
      cases hy : digitIn 16 low with
      | none => exact .inr ⟨rfl, by simp⟩
      | some y =>
        rcases ih with ⟨bytes, hbytes, hrest, htext⟩ | ⟨hnone, hrest⟩
        · obtain ⟨hx16, -, hhigh⟩ := digitIn_spec hx
          obtain ⟨hy16, -, hlow⟩ := digitIn_spec hy
          have hbyte : (UInt8.ofNat (x * 16 + y)).toNat = x * 16 + y :=
            UInt8.toNat_ofNat_of_lt' (show x * 16 + y < 256 by omega)
          refine .inl ⟨UInt8.ofNat (x * 16 + y) :: bytes, by simp [hbytes], by simp [hrest], ?_⟩
          rw [encode_cons, hbyte, htext, List.map_cons, List.map_cons, ← hhigh, ← hlow]
          congr 3 <;> omega
        · exact .inr ⟨by simp [hnone], by simp [hrest]⟩

theorem IsHex.ascii {cs : List Char} (h : IsHex cs) : ∀ c ∈ cs, c.toNat < 128 := by
  intro c hc
  obtain ⟨d, hd⟩ := Option.isSome_iff_exists.mp (h.2 c hc)
  exact (digitIn_spec hd).2.1

end BlakTail.Foundation.Hex
