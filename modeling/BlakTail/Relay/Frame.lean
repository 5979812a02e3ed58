import BlakTail.Foundation.Address
import BlakTail.Foundation.Bytes

/-!
# Relay Frames

The wire format between clients and the relay: a type, a node id, and what the type asks for.
-/

namespace BlakTail.Relay

open Foundation Foundation.Bytes

def REGISTER : UInt8 := 1
def SEND : UInt8 := 2
def FORWARDED : UInt8 := 3
def PING : UInt8 := 4
def OBSERVED : UInt8 := 5

def ID_LEN : Nat := 16
def TOKEN_LEN : Nat := 32
def EXPIRY_LEN : Nat := 8
def HEADER : Nat := 1 + ID_LEN
def REGISTER_FRAME : Nat := HEADER + EXPIRY_LEN + TOKEN_LEN
def OBSERVED_FRAME : Nat := HEADER + 1 + 16 + 2
def MAX_PAYLOAD : Nat := 2048
def MAX_SEND_FRAME : Nat := HEADER + MAX_PAYLOAD

/-- `[u8; ID_LEN]`. -/
abbrev NodeId := { bytes : List UInt8 // bytes.length = ID_LEN }

/-- `[u8; TOKEN_LEN]`. -/
abbrev Token := { bytes : List UInt8 // bytes.length = TOKEN_LEN }

structure SocketAddr where
  ip : IpAddr
  port : BitVec 16
  deriving DecidableEq

/-- A client announces itself. -/
def registerFrame (id : NodeId) (expiresAtUnix : Nat) (token : Token) : List UInt8 :=
  REGISTER :: (id.val ++ toBe EXPIRY_LEN expiresAtUnix ++ token.val)

/-- A client asks for its address. -/
def pingFrame (id : NodeId) : List UInt8 := PING :: id.val

/-- Too large a payload is not wrapped: the relay would drop it. -/
def sendFrame (destination : NodeId) (payload : List UInt8) : Option (List UInt8) :=
  if MAX_PAYLOAD < payload.length then none else some (SEND :: (destination.val ++ payload))

/-- `buffer[start..start + bytes.len()].copy_from_slice(bytes)`. -/
def overwrite (buffer : List UInt8) (start : Nat) (bytes : List UInt8) : List UInt8 :=
  buffer.take start ++ bytes ++ buffer.drop (start + bytes.length)

/-- A SEND frame written into a buffer: its length, and the buffer afterwards. -/
def writeSendFrame (destination : NodeId) (payload out : List UInt8) : Option (Nat × List UInt8) :=
  let len := HEADER + payload.length
  if MAX_PAYLOAD < payload.length ∨ out.length < len then none
  else some (len, overwrite (overwrite (out.set 0 SEND) 1 destination.val) HEADER payload)

/-- The frame the relay makes of a SEND frame. -/
def forwardedFrame (source : NodeId) (payload : List UInt8) : List UInt8 :=
  FORWARDED :: (source.val ++ payload)

/-- The id after the type byte. -/
def frameId (frame : List UInt8) : Option NodeId :=
  let id := (frame.drop 1).take ID_LEN
  if h : id.length = ID_LEN then some ⟨id, h⟩ else none

def parseForwarded (frame : List UInt8) : Option (NodeId × List UInt8) :=
  if frame.length < HEADER ∨ MAX_SEND_FRAME < frame.length ∨ frame.head? ≠ some FORWARDED then none
  else (frameId frame).map fun source => (source, frame.drop HEADER)

/-- `::ffff:a.b.c.d`. -/
def mappedBits (bits : BitVec 32) : Nat := 0xffff * 2 ^ 32 + bits.toNat

def addressBytes : IpAddr → List UInt8
  | .v4 bits => 4 :: toBe 16 (mappedBits bits)
  | .v6 bits => 6 :: toBe 16 bits.toNat

/-- The relay tells a client the address it is seen at. -/
def observedFrame (id : NodeId) (observed : SocketAddr) : List UInt8 :=
  OBSERVED :: (id.val ++ addressBytes observed.ip ++ toBe 2 observed.port.toNat)

/-- The address behind a family byte. -/
def readAddress (family : UInt8) (octets : List UInt8) : Option IpAddr :=
  let bits := ofBe octets
  if family = 4 then
    if bits / 2 ^ 32 = 0xffff then some (.v4 (BitVec.ofNat 32 bits)) else none
  else if family = 6 then some (.v6 (BitVec.ofNat 128 bits))
  else none

def parseObserved (frame : List UInt8) (nodeId : NodeId) : Option SocketAddr := do
  if frame.length ≠ OBSERVED_FRAME ∨ frame.head? ≠ some OBSERVED ∨
      (frame.drop 1).take ID_LEN ≠ nodeId.val then none
  else
    let family ← frame[HEADER]?
    let ip ← readAddress family ((frame.drop (HEADER + 1)).take 16)
    let port := BitVec.ofNat 16 (ofBe (frame.drop (HEADER + 17)))
    if port = 0 then none else some ⟨ip, port⟩

/-! ## Reading back -/

variable (type : UInt8) (id : NodeId) (rest : List UInt8)

theorem drop_header : (type :: (id.val ++ rest)).drop HEADER = rest := by
  change (id.val ++ rest).drop ID_LEN = rest
  rw [List.drop_append_of_le_length id.property.ge, List.drop_of_length_le id.property.le,
    List.nil_append]

theorem take_id : ((type :: (id.val ++ rest)).drop 1).take ID_LEN = id.val := by
  change (id.val ++ rest).take ID_LEN = id.val
  rw [List.take_append_of_le_length id.property.ge, List.take_of_length_le id.property.le]

@[simp] theorem frameId_cons : frameId (type :: (id.val ++ rest)) = some id := by
  have hid := take_id type id rest
  unfold frameId
  rw [dif_pos (by rw [hid]; exact id.property)]
  exact congrArg some (Subtype.ext hid)

/-- A client reads the sender and the payload of what the relay forwards. -/
theorem parseForwarded_forwardedFrame (source : NodeId) (payload : List UInt8)
    (hpayload : payload.length ≤ MAX_PAYLOAD) :
    parseForwarded (forwardedFrame source payload) = some (source, payload) := by
  have hlength : (forwardedFrame source payload).length = HEADER + payload.length := by
    have hid := source.property
    unfold forwardedFrame HEADER
    rw [List.length_cons, List.length_append]
    omega
  unfold parseForwarded
  rw [if_neg]
  · unfold forwardedFrame
    rw [frameId_cons, drop_header]
    rfl
  · unfold MAX_SEND_FRAME
    rintro (hshort | hlong | hother)
    · omega
    · omega
    · exact hother rfl

theorem readAddress_addressBytes (ip : IpAddr) :
    ∃ family octets, addressBytes ip = family :: octets ∧ octets.length = 16 ∧
      readAddress family octets = some ip := by
  cases ip with
  | v4 bits =>
    have hfits : mappedBits bits < 256 ^ 16 := by
      unfold mappedBits
      omega
    refine ⟨4, _, rfl, toBe_length 16 _, ?_⟩
    unfold readAddress
    rw [ofBe_toBe 16 _ hfits]
    have hmapped : mappedBits bits / 2 ^ 32 = 0xffff := by
      unfold mappedBits
      omega
    have hlow : BitVec.ofNat 32 (mappedBits bits) = bits := by
      apply BitVec.eq_of_toNat_eq
      rw [BitVec.toNat_ofNat]
      unfold mappedBits
      omega
    rw [if_pos rfl, if_pos hmapped, hlow]
  | v6 bits =>
    refine ⟨6, _, rfl, toBe_length 16 _, ?_⟩
    unfold readAddress
    have hbits : bits.toNat < 256 ^ 16 := bits.isLt
    rw [ofBe_toBe 16 _ hbits]
    rw [if_neg (by decide), if_pos rfl, BitVec.ofNat_toNat, BitVec.setWidth_eq]

/-- A client reads its own address from the relay's answer. -/
theorem parseObserved_observedFrame (observed : SocketAddr) (hport : observed.port ≠ 0) :
    parseObserved (observedFrame id observed) id = some observed := by
  obtain ⟨family, octets, hbytes, hoctets, hread⟩ := readAddress_addressBytes observed.ip
  let port := toBe 2 observed.port.toNat
  have hframe : observedFrame id observed =
      OBSERVED :: (id.val ++ (family :: (octets ++ port))) := by
    unfold observedFrame
    rw [hbytes, List.append_assoc, List.cons_append]
  have hrest : (observedFrame id observed).drop HEADER = family :: (octets ++ port) := by
    rw [hframe, drop_header]
  -- the parts behind the header, each at its place
  have hfamily : (observedFrame id observed)[HEADER]? = some family := by
    rw [← List.head?_drop, hrest]
    rfl
  have hafter : (observedFrame id observed).drop (HEADER + 1) = octets ++ port := by
    rw [← List.drop_drop, hrest]
    rfl
  have hoctetsRead : ((observedFrame id observed).drop (HEADER + 1)).take 16 = octets := by
    rw [hafter, List.take_append_of_le_length hoctets.ge, List.take_of_length_le hoctets.le]
  have hportRead : (observedFrame id observed).drop (HEADER + 17) = port := by
    rw [show HEADER + 17 = (HEADER + 1) + 16 from rfl, ← List.drop_drop, hafter,
      List.drop_append_of_le_length hoctets.ge, List.drop_of_length_le hoctets.le, List.nil_append]
  have hlength : (observedFrame id observed).length = OBSERVED_FRAME := by
    rw [hframe, List.length_cons, List.length_append, List.length_cons, List.length_append,
      id.property, hoctets]
    rfl
  have hvalue : BitVec.ofNat 16 (ofBe port) = observed.port := by
    rw [ofBe_toBe 2 _ observed.port.isLt, BitVec.ofNat_toNat, BitVec.setWidth_eq]
  unfold parseObserved
  rw [if_neg, hfamily, hoctetsRead, hportRead]
  · simp only [Option.bind_eq_bind, Option.bind_some, hread, hvalue, if_neg hport]
  · rw [hlength]
    rintro (hno | hno | hno)
    · exact hno rfl
    · exact hno rfl
    · rw [hframe] at hno
      exact hno (take_id _ _ _)

theorem addressBytes_of_readAddress {family : UInt8} {octets : List UInt8} {ip : IpAddr}
    (hoctets : octets.length = 16) (h : readAddress family octets = some ip) :
    addressBytes ip = family :: octets := by
  have hback : toBe 16 (ofBe octets) = octets := by
    rw [← hoctets]
    exact toBe_ofBe octets
  have hbound : ofBe octets < 2 ^ 128 := by
    have hlt := ofBe_lt octets
    rw [hoctets] at hlt
    exact hlt
  unfold readAddress at h
  dsimp only at h
  split_ifs at h with hv4 hmapped hv6
  · cases h
    have hbits : mappedBits (BitVec.ofNat 32 (ofBe octets)) = ofBe octets := by
      unfold mappedBits
      rw [BitVec.toNat_ofNat]
      omega
    rw [addressBytes, hbits, hback, hv4]
  · cases h
    rw [addressBytes, BitVec.toNat_ofNat, Nat.mod_eq_of_lt hbound, hback, hv6]

/-- An answer that is read was written for the address read from it. -/
theorem observedFrame_of_parseObserved {frame : List UInt8} {id : NodeId} {observed : SocketAddr}
    (h : parseObserved frame id = some observed) : observedFrame id observed = frame := by
  unfold parseObserved at h
  split_ifs at h with hrefused
  push Not at hrefused
  obtain ⟨hlength, htype, hid⟩ := hrefused
  -- the frame in its parts, from the front
  obtain ⟨rest, rfl⟩ : ∃ rest, frame = OBSERVED :: rest := List.head?_eq_some_iff.mp htype
  obtain ⟨behind, rfl⟩ : ∃ behind, rest = id.val ++ behind :=
    ⟨rest.drop ID_LEN, by rw [← hid]; exact (List.take_append_drop ID_LEN rest).symm⟩
  have hbehind : (OBSERVED :: (id.val ++ behind)).drop HEADER = behind := drop_header _ _ _
  obtain ⟨family, hfamily, h⟩ := Option.bind_eq_some_iff.mp h
  rw [← List.head?_drop, hbehind] at hfamily
  obtain ⟨body, rfl⟩ := List.head?_eq_some_iff.mp hfamily
  have hbody : (OBSERVED :: (id.val ++ family :: body)).drop (HEADER + 1) = body := by
    rw [← List.drop_drop, hbehind]
    rfl
  have hport : (OBSERVED :: (id.val ++ family :: body)).drop (HEADER + 17) = body.drop 16 := by
    rw [show HEADER + 17 = (HEADER + 1) + 16 from rfl, ← List.drop_drop, hbody]
  have hsize : body.length = 18 := by
    rw [List.length_cons, List.length_append, List.length_cons, id.property] at hlength
    unfold OBSERVED_FRAME HEADER ID_LEN at hlength
    omega
  rw [hbody, hport] at h
  obtain ⟨ip, hip, h⟩ := Option.bind_eq_some_iff.mp h
  have haddress := addressBytes_of_readAddress (by rw [List.length_take, hsize]; rfl) hip
  have hbytes : toBe 2 (ofBe (body.drop 16)) = body.drop 16 := by
    rw [show 2 = (body.drop 16).length by rw [List.length_drop, hsize]]
    exact toBe_ofBe _
  have hfits : ofBe (body.drop 16) < 2 ^ 16 := by
    have hbound := ofBe_lt (body.drop 16)
    rw [List.length_drop, hsize] at hbound
    exact hbound
  dsimp only at h
  split_ifs at h
  cases h
  unfold observedFrame
  rw [haddress, BitVec.toNat_ofNat, Nat.mod_eq_of_lt hfits, hbytes, List.append_assoc,
    List.cons_append, List.take_append_drop]

/-- The writer into a buffer succeeds where the other does and there is room, and writes the same
bytes in front of what it leaves alone. -/
theorem writeSendFrame_eq (destination : NodeId) (payload out : List UInt8) :
    writeSendFrame destination payload out = (sendFrame destination payload).bind fun frame =>
      if out.length < frame.length then none
      else some (frame.length, frame ++ out.drop frame.length) := by
  have hid := destination.property
  have hlength : (SEND :: (destination.val ++ payload)).length = HEADER + payload.length := by
    rw [List.length_cons, List.length_append, HEADER]
    omega
  unfold writeSendFrame sendFrame
  by_cases hlarge : MAX_PAYLOAD < payload.length
  · rw [if_pos (.inl hlarge), if_pos hlarge, Option.bind_none]
  · rw [if_neg hlarge, Option.bind_some, hlength]
    by_cases hshort : out.length < HEADER + payload.length
    · rw [if_pos (.inr hshort), if_pos hshort]
    · rw [if_neg (not_or.mpr ⟨hlarge, hshort⟩), if_neg hshort]
      cases out with
      | nil => exact absurd (by rw [HEADER, List.length_nil]; omega) hshort
      | cons first out =>
        -- the header first, then the payload behind it
        have hheader : overwrite ((first :: out).set 0 SEND) 1 destination.val =
            SEND :: (destination.val ++ out.drop ID_LEN) := by
          unfold overwrite
          rw [hid]
          rfl
        have htake : (SEND :: (destination.val ++ out.drop ID_LEN)).take HEADER =
            SEND :: destination.val := by
          change SEND :: (destination.val ++ out.drop ID_LEN).take ID_LEN = _
          rw [List.take_append_of_le_length hid.ge, List.take_of_length_le hid.le]
        have hdrop : (SEND :: (destination.val ++ out.drop ID_LEN)).drop (HEADER + payload.length) =
            (first :: out).drop (HEADER + payload.length) := by
          rw [← List.drop_drop, drop_header, ← List.drop_drop]
          rfl
        rw [hheader, overwrite, htake, hdrop, List.cons_append]

end BlakTail.Relay
