import BlakTail.Foundation.Hex
import BlakTail.Relay.Frame

/-!
# Node Ids as Text

Hexadecimal text is cut into pairs, and each pair goes through the integer parser of the standard
library, which takes a sign: `+f` is decoded like `0f`.
-/

namespace BlakTail.Relay

open Foundation Text IpAddr Hex

/-- `u8::from_str_radix`: an optional `+`, at least one digit, and a value that fits. -/
def fromStrRadix (radix : Nat) (cs : List Char) : Option UInt8 :=
  let body := match cs with
    | '+' :: rest => rest
    | _ => cs
  if body.isEmpty then none
  else ((body.foldlM (fun acc c => (digitIn radix c).map (acc * radix + ·)) 0).filter
    (· ≤ 255)).map UInt8.ofNat

/-- `&input[i..i + 2]` for every other position of a text of even length. -/
def pairs : List Char → List (List Char)
  | a :: b :: rest => [a, b] :: pairs rest
  | _ => []

def hexDecode (input : String) : Option (List UInt8) :=
  if byteLen input % 2 ≠ 0 ∨ ¬ input.toList.all (·.toNat < 128) then none
  else (pairs input.toList).mapM (fromStrRadix 16)

def formatNodeId (id : NodeId) : String :=
  let hex := encode id.val
  String.ofList (hex.take 8 ++ '-' :: (hex.drop 8).take 4 ++ '-' :: (hex.drop 12).take 4 ++
    '-' :: (hex.drop 16).take 4 ++ '-' :: hex.drop 20)

def undashed (text : String) : String := String.ofList (text.toList.filter (· ≠ '-'))

def parseNodeId (text : String) : Option NodeId :=
  let hex := undashed text
  if byteLen hex ≠ ID_LEN * 2 then none
  else (hexDecode hex).bind fun bytes =>
    if h : bytes.length = ID_LEN then some ⟨bytes, h⟩ else none

/-- A sign or a digit, and then a digit: what `from_str_radix` takes of two characters. -/
def SignedPair (pair : List Char) : Prop :=
  ∃ a b, pair = [a, b] ∧ (a = '+' ∨ (digitIn 16 a).isSome) ∧ (digitIn 16 b).isSome

/-- The text has an odd number of bytes, a character that is not ASCII, or a bad pair. -/
def Refused (s : String) : Prop :=
  byteLen s % 2 = 1 ∨ (∃ c ∈ s.toList, 128 ≤ c.toNat) ∨ ∃ pair ∈ pairs s.toList, ¬ SignedPair pair

variable {s t : String}

theorem byteLen_ascii (h : ∀ c ∈ s.toList, c.toNat < 128) : byteLen s = s.toList.length := by
  have hsize : ∀ c ∈ s.toList, c.utf8Size = 1 := by
    intro c hc
    have hle : c.val ≤ 127 := Nat.le_of_lt_succ (h c hc)
    simp [Char.utf8Size, hle]
  rw [byteLen, List.map_congr_left hsize]
  simp

/-- Two characters are read as a number if the second is a digit and the first is one or a sign. -/
theorem fromStrRadix_pair (a b : Char) : fromStrRadix 16 [a, b] =
    (if a = '+' then some 0 else digitIn 16 a).bind fun x =>
      (digitIn 16 b).map fun y => UInt8.ofNat (x * 16 + y) := by
  have hfits : ∀ x < 16, ∀ y < 16, x * 16 + y ≤ 255 := by omega
  by_cases ha : a = '+'
  · subst ha
    cases hy : digitIn 16 b with
    | none => simp [fromStrRadix, hy]
    | some y => simpa [fromStrRadix, hy] using hfits 0 (by decide) y (digitIn_spec hy).1
  · have hbody : (match [a, b] with | '+' :: rest => rest | _ => [a, b]) = [a, b] := by
      split
      · next heq => exact absurd (List.cons.inj heq).1 ha
      · rfl
    simp only [fromStrRadix, hbody, if_neg ha]
    cases hx : digitIn 16 a with
    | none => simp [hx]
    | some x =>
      cases hy : digitIn 16 b with
      | none => simp [hx, hy]
      | some y => simpa [hx, hy] using hfits x (digitIn_spec hx).1 y (digitIn_spec hy).1

theorem pairs_decode {cs : List Char} (heven : cs.length % 2 = 0) (hsign : '+' ∉ cs) :
    (pairs cs).mapM (fromStrRadix 16) = decode cs := by
  induction cs using decode.induct with
  | case1 => rfl
  | case2 c => cases heven
  | case3 a b rest ih =>
    have hrest : (pairs rest).mapM (fromStrRadix 16) = decode rest :=
      ih (by simp only [List.length_cons] at heven; omega) (by grind)
    have ha : a ≠ '+' := by grind
    rw [pairs, List.mapM_cons, fromStrRadix_pair, if_neg ha, hrest, decode]
    cases digitIn 16 a <;> cases digitIn 16 b <;> cases decode rest <;> rfl

/-- Pairs are read as bytes if each of them can be. -/
theorem mapM_pairs_eq_none (cs : List Char) :
    (pairs cs).mapM (fromStrRadix 16) = none ↔ ∃ pair ∈ pairs cs, ¬ SignedPair pair := by
  induction cs using pairs.induct with
  | case1 a b rest ih =>
    have hpair : fromStrRadix 16 [a, b] = none ↔ ¬ SignedPair [a, b] := by
      rw [fromStrRadix_pair]
      by_cases ha : a = '+' <;> cases hx : digitIn 16 a <;> cases hy : digitIn 16 b <;>
        simp [SignedPair, ha, hx, hy]
    rw [pairs, List.exists_mem_cons_iff, ← hpair, ← ih, List.mapM_cons]
    cases fromStrRadix 16 [a, b] <;> cases (pairs rest).mapM (fromStrRadix 16) <;> simp
  | case2 cs hshort => simp [pairs]

/-- The texts that are refused, by their characters. -/
theorem hexDecode_eq_none : hexDecode s = none ↔ Refused s := by
  rw [Refused, ← mapM_pairs_eq_none, hexDecode, ← or_assoc]
  split
  · next hbad => exact iff_of_true rfl (.inl (by simpa using hbad))
  · next hgood => exact (or_iff_right (by simpa using hgood)).symm

theorem length_of_pairs {cs : List Char} {bytes : List UInt8} (heven : cs.length % 2 = 0)
    (hbytes : (pairs cs).mapM (fromStrRadix 16) = some bytes) : cs.length = 2 * bytes.length := by
  induction cs using decode.induct generalizing bytes with
  | case1 => cases hbytes; rfl
  | case2 c => cases heven
  | case3 a b rest ih =>
    rw [pairs, List.mapM_cons] at hbytes
    obtain ⟨byte, -, hbytes⟩ := Option.bind_eq_some_iff.mp hbytes
    obtain ⟨others, hothers, hbytes⟩ := Option.bind_eq_some_iff.mp hbytes
    cases hbytes
    simp only [List.length_cons] at heven ⊢
    have hrest := ih (by omega) hothers
    omega

/-- Two characters make a byte, and each of them is one byte of the text. -/
theorem hexDecode_length {bytes : List UInt8} (h : hexDecode s = some bytes) :
    byteLen s = s.toList.length ∧ s.toList.length = 2 * bytes.length := by
  obtain ⟨hgood, hbytes⟩ := Option.ite_none_left_eq_some.mp h
  obtain ⟨heven, hascii⟩ : byteLen s % 2 = 0 ∧ ∀ c ∈ s.toList, c.toNat < 128 := by
    simpa using hgood
  have hlen := byteLen_ascii hascii
  exact ⟨hlen, length_of_pairs (hlen ▸ heven) hbytes⟩

/-- Text without a sign is read as hexadecimal. -/
theorem hexDecode_eq (hsign : '+' ∉ s.toList) : hexDecode s = decode s.toList := by
  unfold hexDecode
  split
  · next hbad =>
    rcases decode_spec s.toList with ⟨-, -, hhex, -⟩ | ⟨hnone, -⟩
    · refine absurd hbad ?_
      rw [byteLen_ascii hhex.ascii]
      simpa using ⟨hhex.1, hhex.ascii⟩
    · exact hnone.symm
  · next hgood =>
    obtain ⟨heven, hascii⟩ : byteLen s % 2 = 0 ∧ ∀ c ∈ s.toList, c.toNat < 128 := by
      simpa using hgood
    exact pairs_decode (byteLen_ascii hascii ▸ heven) hsign

theorem no_sign (h : IsHex s.toList) : '+' ∉ s.toList := fun hmem =>
  absurd (h.2 '+' hmem) (by decide)

/-! ## Ids -/

theorem undashed_formatNodeId (id : NodeId) :
    (undashed (formatNodeId id)).toList = encode id.val := by
  unfold undashed formatNodeId
  generalize hhex : encode id.val = hex
  have hkeep : ∀ part : List Char, part ⊆ hex → part.filter (· ≠ '-') = part := fun part hpart =>
    List.filter_eq_self.mpr fun c hc =>
      decide_eq_true (encode_forall (P := (· ≠ '-')) (by decide) id.val c (hhex ▸ hpart hc))
  have hslice : ∀ start count, ((hex.drop start).take count).filter (· ≠ '-') =
      (hex.drop start).take count := fun start count =>
    hkeep _ fun c hc => List.mem_of_mem_drop (List.mem_of_mem_take hc)
  have hglue : ∀ start, (hex.drop start).take 4 ++ hex.drop (start + 4) = hex.drop start := by
    intro start
    rw [← List.drop_drop, List.take_append_drop]
  have hdash : decide ('-' ≠ '-') = false := by decide
  simp only [String.toList_ofList, List.filter_append, List.filter_cons, hdash, hslice,
    hkeep _ (List.take_subset 8 hex), hkeep _ (List.drop_subset 20 hex), Bool.false_eq_true,
      if_false,
    List.append_assoc, hglue 16, hglue 12, hglue 8, List.take_append_drop]

theorem parseNodeId_eq_some {id : NodeId} :
    parseNodeId t = some id ↔
      byteLen (undashed t) = ID_LEN * 2 ∧ hexDecode (undashed t) = some id.val := by
  unfold parseNodeId
  by_cases hlen : byteLen (undashed t) = ID_LEN * 2
  · simp only [hlen, ne_eq, not_true_eq_false, if_false, true_and, Option.bind_eq_some_iff]
    constructor
    · rintro ⟨bytes, hbytes, hid⟩
      split at hid
      · cases hid
        exact hbytes
      · cases hid
    · exact fun hbytes => ⟨id.val, hbytes, dif_pos id.property⟩
  · simp [hlen]

theorem parseNodeId_eq_none :
    parseNodeId t = none ↔ (undashed t).length ≠ 32 ∨ Refused (undashed t) := by
  rw [← hexDecode_eq_none, parseNodeId]
  cases hdecoded : hexDecode (undashed t) with
  | none => simp
  | some bytes =>
    obtain ⟨hascii, hlen⟩ := hexDecode_length hdecoded
    have hcount : (undashed t).length = 2 * bytes.length := by rw [← String.length_toList, hlen]
    rw [hascii, hlen, hcount]
    by_cases h16 : bytes.length = 16
    · simp [h16, ID_LEN]
    · have h32 : 2 * bytes.length ≠ 32 := by omega
      simp [h32, ID_LEN]

theorem parseNodeId_formatNodeId (id : NodeId) : parseNodeId (formatNodeId id) = some id := by
  have htext := undashed_formatNodeId id
  have hascii : ∀ c ∈ (undashed (formatNodeId id)).toList, c.toNat < 128 :=
    htext ▸ encode_forall (by decide) id.val
  have hsign : '+' ∉ (undashed (formatNodeId id)).toList := fun hmem =>
    encode_forall (P := (· ≠ '+')) (by decide) id.val _ (htext ▸ hmem) rfl
  rw [parseNodeId_eq_some, hexDecode_eq hsign, byteLen_ascii hascii, htext, length_encode,
    decode_encode, id.property]
  exact ⟨rfl, rfl⟩

/-! ## Texts read exactly -/

/-- The text is decoded exactly if it is hexadecimal, and to the bytes it writes. -/
def HexExact (s : String) : Prop :=
  ((hexDecode s).isSome ↔ IsHex s.toList) ∧
    ∀ bytes, hexDecode s = some bytes → encode bytes = s.toList.map toAsciiLower

/-- The text is read as an id only if it is 32 digits, up to dashes, that write the id. -/
def NodeIdExact (t : String) : Prop :=
  ∀ id, parseNodeId t = some id → (undashed t).length = 32 ∧ IsHex (undashed t).toList ∧
    encode id.val = (undashed t).toList.map toAsciiLower

theorem hexExact_of_no_sign (hsign : '+' ∉ s.toList) : HexExact s := by
  rw [HexExact, hexDecode_eq hsign]
  rcases decode_spec s.toList with ⟨bytes, hbytes, hhex, htext⟩ | ⟨hnone, hhex⟩
  · rw [hbytes]
    exact ⟨by simpa using hhex, fun _ h => Option.some.inj h ▸ htext⟩
  · rw [hnone]
    exact ⟨by simpa using hhex, nofun⟩

/-- **Text is read exactly** if it has no sign or is refused, and ids are read back. -/
theorem hex_exact_iff (s t : String) (id : NodeId) :
    (HexExact s ↔ Refused s ∨ '+' ∉ s.toList) ∧
      parseNodeId (formatNodeId id) = some id ∧
      (NodeIdExact t ↔
        ((undashed t).length ≠ 32 ∨ Refused (undashed t)) ∨ '+' ∉ t.toList) := by
  rw [← hexDecode_eq_none, ← parseNodeId_eq_none]
  refine ⟨⟨fun h => ?_, ?_⟩, parseNodeId_formatNodeId id, ⟨fun h => ?_, ?_⟩⟩
  · refine or_iff_not_imp_left.mpr fun hsome => no_sign (h.1.mp ?_)
    exact Option.isSome_iff_ne_none.mpr hsome
  · rintro (hnone | hsign)
    · -- hexadecimal text has no sign and would be decoded
      have hhex : ¬ IsHex s.toList := fun hhex => by
        have hsome := (hexExact_of_no_sign (no_sign hhex)).1.mpr hhex
        rw [hnone] at hsome
        cases hsome
      rw [HexExact, hnone]
      exact ⟨by simpa using hhex, nofun⟩
    · exact hexExact_of_no_sign hsign
  · cases hid : parseNodeId t with
    | none => exact .inl rfl
    | some id => exact .inr fun hmem => no_sign (h id hid).2.1 (by simpa [undashed] using hmem)
  · intro h id hid
    have hsign : '+' ∉ (undashed t).toList := by
      simpa [undashed] using h.resolve_left (by simp [hid])
    obtain ⟨-, hbytes⟩ := parseNodeId_eq_some.mp hid
    have hexact := hexExact_of_no_sign hsign
    have htext := hexact.2 _ hbytes
    have hlen := congrArg List.length htext
    rw [length_encode, id.property, List.length_map] at hlen
    exact ⟨hlen.symm, hexact.1.mp (by rw [hbytes]; rfl), htext⟩

/-- A sign is decoded, as text and in an id. -/
theorem sign_decoded :
    hexDecode "+f" = some [15] ∧ ¬ HexExact "+f" ∧
      (parseNodeId "+0000000-0000-0000-0000-000000000000").isSome := by
  have hdecode : hexDecode "+f" = some [15] := by decide +kernel
  refine ⟨hdecode, fun h => ?_, by decide +kernel⟩
  exact no_sign (h.1.mp (by rw [hdecode]; rfl)) (by decide)

end BlakTail.Relay
