import BlakTail.Foundation.Address
import BlakTail.Foundation.Blocks

/-!
# Prefixes

The coordinator keeps prefixes as text and reads them whenever it compares them (`ipam`,
`resources`).  What is read is an address with its trailing bits cleared and a length, which is
a block of the addresses of one family.
-/

namespace BlakTail.Addressing

open Foundation

/-! ## Prefixes as blocks -/

/-- How many bits the addresses of a family have. -/
def width (ipv4 : Bool) : Nat := if ipv4 then 32 else 128

def addressBits : IpAddr → Nat
  | .v4 bits => bits.toNat
  | .v6 bits => bits.toNat

abbrev Cidr := IpAddr × Nat

namespace Cidr

def block (c : Cidr) : Block := ⟨addressBits c.1, c.2⟩

/-- No longer than an address of its family. -/
def Fits (c : Cidr) : Prop := c.2 ≤ width c.1.isIpv4

/-- One prefix lies inside another. -/
def Within (inner outer : Cidr) : Prop :=
  inner.1.isIpv4 = outer.1.isIpv4 ∧ Block.Within (width outer.1.isIpv4) inner.block outer.block

/-- Two prefixes share an address. -/
def Meets (a b : Cidr) : Prop := Within a b ∨ Within b a

/-- In one family, prefixes meet exactly if their blocks do. -/
theorem meets_iff {a b : Cidr} {ipv4 : Bool} (ha : a.1.isIpv4 = ipv4) (hb : b.1.isIpv4 = ipv4) :
    Meets a b ↔ Block.Meets (width ipv4) a.block b.block := by
  unfold Meets Within Block.Meets
  rw [ha, hb]
  simp

end Cidr

/-! ## Reading -/

/-- The address with the bits behind the prefix cleared. -/
def maskAddr (addr : IpAddr) (len : Nat) : IpAddr :=
  match addr with
  | .v4 bits => .v4 (bits &&& leading 32 len)
  | .v6 bits => .v6 (bits &&& leading 128 len)

/-- `addr/len`, as the network address and the length; `none` is `InvalidCidr`. -/
def parseCidr (cidr : String) : Option Cidr := do
  let (addr, len) ← Text.splitOnce '/' cidr
  let addr ← IpAddr.parse (Text.trim addr)
  let len ← Text.parseU8 (Text.trim len)
  if width addr.isIpv4 < len then none else some (maskAddr addr len, len)

/-- Whether an address lies in a network of its own family. -/
def cidrContains (network : IpAddr) (len : Nat) (ip : IpAddr) : Bool :=
  match network, ip with
  | .v4 n, .v4 i => n &&& leading 32 len = i &&& leading 32 len
  | .v6 n, .v6 i => n &&& leading 128 len = i &&& leading 128 len
  | _, _ => false

/-- `pools_overlap`; `none` if one of them is no prefix. -/
def poolsOverlap (a b : String) : Option Bool := do
  let (aNet, aLen) ← parseCidr a
  let (bNet, bLen) ← parseCidr b
  if aNet.isIpv4 ≠ bNet.isIpv4 then some false
  else some (cidrContains aNet aLen bNet || cidrContains bNet bLen aNet)

def isDefaultRoute (cidr : String) : Bool := cidr = "0.0.0.0/0" || cidr = "::/0"

def cidrsOverlap (left right : String) : Bool := (poolsOverlap left right).getD false

def cidrWithin (inner outer : String) : Bool :=
  match parseCidr inner, parseCidr outer with
  | some (innerNet, innerLen), some (outerNet, outerLen) =>
    innerNet.isIpv4 = outerNet.isIpv4 && outerLen ≤ innerLen && cidrsOverlap inner outer
  | _, _ => false

/-! ## Comparisons -/

variable (addr : IpAddr)

theorem maskAddr_isIpv4 (len : Nat) : (maskAddr addr len).isIpv4 = addr.isIpv4 := by
  cases addr with
  | v4 bits | v6 bits => rfl

theorem parseCidr_fits {cidr : String} {c : Cidr} (h : parseCidr cidr = some c) : c.Fits := by
  obtain ⟨parts, -, h⟩ := Option.bind_eq_some_iff.mp h
  obtain ⟨addr, -, h⟩ := Option.bind_eq_some_iff.mp h
  obtain ⟨len, -, h⟩ := Option.bind_eq_some_iff.mp h
  split at h
  · cases h
  · next hlen =>
    cases h
    show len ≤ width (maskAddr addr len).isIpv4
    rw [maskAddr_isIpv4]
    omega

theorem cidrContains_iff {network ip : IpAddr} {len : Nat} :
    cidrContains network len ip ↔ network.isIpv4 = ip.isIpv4 ∧
      Block.lead (width network.isIpv4) len (addressBits network) =
        Block.lead (width network.isIpv4) len (addressBits ip) := by
  cases network with
  | v4 n =>
    cases ip with
    | v4 i =>
      rw [cidrContains, decide_eq_true_eq, and_leading_eq_iff]
      exact (and_iff_right rfl).symm
    | v6 i => simp [cidrContains, IpAddr.isIpv4]
  | v6 n =>
    cases ip with
    | v4 i => simp [cidrContains, IpAddr.isIpv4]
    | v6 i =>
      rw [cidrContains, decide_eq_true_eq, and_leading_eq_iff]
      exact (and_iff_right rfl).symm

section

/-- Two texts overlap exactly if their prefixes meet. -/
theorem cidrsOverlap_iff {a b : String} {x y : Cidr}
    (ha : parseCidr a = some x) (hb : parseCidr b = some y) :
    cidrsOverlap a b ↔ x.Meets y := by
  obtain ⟨aNet, aLen⟩ := x
  obtain ⟨bNet, bLen⟩ := y
  have hx := parseCidr_fits ha
  have hy := parseCidr_fits hb
  unfold Cidr.Fits at hx hy
  unfold cidrsOverlap poolsOverlap
  simp only [ha, hb, Option.bind_eq_bind, Option.bind_some]
  unfold Cidr.Meets Cidr.Within Block.Within Cidr.block
  by_cases hfamily : aNet.isIpv4 = bNet.isIpv4
  · rw [if_neg (not_not_intro hfamily), Option.getD_some, Bool.or_eq_true, cidrContains_iff,
      cidrContains_iff, hfamily]
    rw [hfamily] at hx
    -- The shorter of the two decides; a longer agreement gives it too.
    constructor
    · rintro (⟨-, hlead⟩ | ⟨-, hlead⟩)
      · rcases Nat.le_total aLen bLen with hle | hle
        · exact .inr ⟨rfl, hle, hlead.symm⟩
        · exact .inl ⟨rfl, hle, Block.lead_mono hle hx hlead⟩
      · rcases Nat.le_total aLen bLen with hle | hle
        · exact .inr ⟨rfl, hle, Block.lead_mono hle hy hlead⟩
        · exact .inl ⟨rfl, hle, hlead.symm⟩
    · rintro (⟨-, -, hlead⟩ | ⟨-, -, hlead⟩)
      · exact .inr ⟨rfl, hlead.symm⟩
      · exact .inl ⟨rfl, hlead.symm⟩
  · have hfamily' : ¬ bNet.isIpv4 = aNet.isIpv4 := fun h => hfamily h.symm
    simp [hfamily, hfamily']

/-- One text lies within another exactly if its prefix does. -/
theorem cidrWithin_iff {a b : String} {x y : Cidr}
    (ha : parseCidr a = some x) (hb : parseCidr b = some y) :
    cidrWithin a b ↔ x.Within y := by
  unfold cidrWithin
  rw [ha, hb]
  simp only [Bool.and_eq_true, decide_eq_true_eq, cidrsOverlap_iff ha hb]
  constructor
  · rintro ⟨⟨hfamily, hlen⟩, h | h⟩
    · exact h
    · have hsame : x.2 = y.2 := Nat.le_antisymm h.2.1 hlen
      refine ⟨hfamily, hlen, ?_⟩
      have hlead := h.2.2
      unfold Cidr.block at hlead ⊢
      rw [hfamily, hsame] at hlead
      exact hlead.symm
  · intro h
    exact ⟨⟨h.1, h.2.1⟩, .inl h⟩

end

theorem cidrWithin_parses {a b : String} (h : cidrWithin a b) :
    ∃ x y, parseCidr a = some x ∧ parseCidr b = some y ∧ x.Within y := by
  cases ha : parseCidr a with
  | none =>
    unfold cidrWithin at h
    rw [ha] at h
    cases h
  | some x =>
    cases hb : parseCidr b with
    | none =>
      unfold cidrWithin at h
      rw [ha, hb] at h
      cases h
    | some y => exact ⟨x, y, rfl, rfl, (cidrWithin_iff ha hb).mp h⟩

/-! ## Writing -/

/-- `format!("{address}/{len}")`. -/
def cidrText (addr : IpAddr) (len : Nat) : String := addr.toText ++ "/" ++ toString len

theorem splitOnce_cidrText (len : Nat) :
    Text.splitOnce '/' (cidrText addr len) = some (addr.toText, toString len) := by
  have hslash : '/' ∉ addr.toText.toList := fun hin =>
    absurd (IpAddr.toText_chars addr '/' hin) (by decide)
  exact Text.splitOnce_append hslash rfl _

theorem toText_no_space : ∀ c ∈ addr.toText.toList, Text.isWhitespace c = false := by
  intro c hc
  have hall : ("0123456789abcdef.:".toList.all fun c => !Text.isWhitespace c) := by decide
  have hchar := IpAddr.toText_chars addr c hc
  unfold IpAddr.isAddressChar at hchar
  simpa using List.all_eq_true.mp hall c (by simpa using hchar)

/-- A prefix is read back as written. -/
theorem parseCidr_cidrText {addr : IpAddr} {len : Nat} (hlen : len ≤ width addr.isIpv4) :
    parseCidr (cidrText addr len) = some (maskAddr addr len, len) := by
  have hbound : len ≤ 255 := by
    unfold width at hlen
    split at hlen <;> omega
  unfold parseCidr
  rw [splitOnce_cidrText]
  simp only [Option.bind_eq_bind, Option.bind_some, Text.trim_eq_self (toText_no_space addr),
    Text.trim_toString, IpAddr.parse_toText, Text.parseU8_toString hbound]
  rw [if_neg (Nat.not_lt.mpr hlen)]

end BlakTail.Addressing
