import BlakTail.Forwarding.Filter

/-!
# The Exit Route Without the Carried Prefixes

The halving of `split` is that of the library's blocks, and its parts are read back from their
text as written.
-/

namespace BlakTail.Forwarding

open Foundation Addressing Block

/-! ## Splitting -/

variable {bits : Nat} {ipv4 : Bool}

theorem blockContains_iff {a b : Block} (ha : a.net < 2 ^ bits) (hb : b.net < 2 ^ bits) :
    blockContains bits a.net a.len b.net b.len = decide (Within bits b a) := by
  have hxor : (a.net ^^^ b.net) >>> (bits - a.len) = 0 ↔
      lead bits a.len b.net = lead bits a.len a.net := by
    rw [Nat.shiftRight_xor_distrib, Nat.xor_eq_zero_iff, Nat.shiftRight_eq_div_pow,
      Nat.shiftRight_eq_div_pow]
    exact eq_comm
  have hzero : a.len = 0 → lead bits a.len b.net = lead bits a.len a.net := by
    intro hlen
    unfold lead
    rw [hlen, Nat.sub_zero, Nat.div_eq_of_lt ha, Nat.div_eq_of_lt hb]
  rw [Bool.eq_iff_iff, decide_eq_true_iff]
  unfold blockContains Within
  simp only [Bool.and_eq_true, Bool.or_eq_true, decide_eq_true_eq, hxor]
  exact and_congr_right fun _ => or_iff_right_of_imp hzero

theorem split_eq {rest net : Nat} {excluded : List Block}
    (hexcluded : ∀ gone ∈ excluded, gone.net < 2 ^ bits) (hrest : rest ≤ bits)
    (hnet : net < 2 ^ bits) :
    split bits excluded rest net = Block.split bits excluded rest net := by
  have hholds : ∀ net len, net < 2 ^ bits →
      (excluded.any fun gone => blockContains bits gone.net gone.len net len) =
        excluded.any fun gone => Within bits ⟨net, len⟩ gone := by
    intro net len hnet
    rw [Bool.eq_iff_iff, List.any_eq_true, List.any_eq_true]
    refine exists_congr fun gone => and_congr_right fun hgone => ?_
    have hiff := blockContains_iff (b := ⟨net, len⟩) (hexcluded gone hgone) hnet
    exact Bool.eq_iff_iff.mp hiff
  have hheld : ∀ net len, net < 2 ^ bits →
      (excluded.any fun gone => blockContains bits net len gone.net gone.len) =
        excluded.any fun gone => Within bits gone ⟨net, len⟩ := by
    intro net len hnet
    rw [Bool.eq_iff_iff, List.any_eq_true, List.any_eq_true]
    refine exists_congr fun gone => and_congr_right fun hgone => ?_
    have hiff := blockContains_iff (a := ⟨net, len⟩) hnet (hexcluded gone hgone)
    exact Bool.eq_iff_iff.mp hiff
  induction rest generalizing net with
  | zero =>
    unfold split Block.split
    dsimp only
    rw [Nat.sub_zero, hholds net bits hnet, hheld net bits hnet]
  | succ rest ih =>
    unfold split Block.split
    dsimp only
    -- both halves stay in the space
    rw [hholds net _ hnet, hheld net _ hnet, ih (Nat.le_of_lt hrest) hnet, ih (Nat.le_of_lt hrest)
      (Nat.or_lt_two_pow hnet (Nat.pow_lt_pow_right (by decide) hrest))]

/-! ## Parts as text -/

theorem addressBits_lt (addr : IpAddr) : addressBits addr < 2 ^ width addr.isIpv4 := by
  cases addr with
  | v4 bits | v6 bits => exact bits.isLt

theorem addressOf_isIpv4 (ipv4 : Bool) (bits : Nat) : (addressOf ipv4 bits).isIpv4 = ipv4 := by
  cases ipv4 with
  | true | false => rfl

theorem addressBits_addressOf (hbits : bits < 2 ^ width ipv4) :
    addressBits (addressOf ipv4 bits) = bits := by
  cases ipv4 with
  | true | false => exact Nat.mod_eq_of_lt hbits

/-- Clearing the bits behind the length keeps the block. -/
theorem lead_maskAddr (addr : IpAddr) (len : Nat) :
    lead (width addr.isIpv4) len (addressBits (maskAddr addr len)) =
      lead (width addr.isIpv4) len (addressBits addr) := by
  cases addr with
  | v4 bits =>
    refine (and_leading_eq_iff (bits &&& leading 32 len) bits).mp ?_
    rw [BitVec.and_assoc, BitVec.and_self]
  | v6 bits =>
    refine (and_leading_eq_iff (bits &&& leading 128 len) bits).mp ?_
    rw [BitVec.and_assoc, BitVec.and_self]

/-- An address without bits behind the length is kept. -/
theorem maskAddr_eq_self {addr : IpAddr} {len : Nat}
    (haligned : 2 ^ (width addr.isIpv4 - len) ∣ addressBits addr) : maskAddr addr len = addr := by
  cases addr with
  | v4 bits => exact congrArg IpAddr.v4 (and_leading_eq_self haligned)
  | v6 bits => exact congrArg IpAddr.v6 (and_leading_eq_self haligned)

/-- A prefix lies in an address and length exactly if its block lies in theirs. -/
theorem within_addressOf {c : Cidr} {part : Block} (hnet : part.net < 2 ^ width ipv4) :
    c.Within (addressOf ipv4 part.net, part.len) ↔
      c.1.isIpv4 = ipv4 ∧ Within (width ipv4) c.block part := by
  unfold Cidr.Within Cidr.block
  rw [addressOf_isIpv4, addressBits_addressOf hnet]

/-! ## The complement -/

theorem parseCidr_default {route : String} (h : isDefaultRoute route) :
    ∃ network, parseCidr route = some (network, 0) := by
  unfold isDefaultRoute at h
  rw [Bool.or_eq_true, decide_eq_true_eq, decide_eq_true_eq] at h
  rcases h with rfl | rfl
  · exact ⟨_, rfl⟩
  · exact ⟨_, rfl⟩

theorem within_default {c : Cidr} {network : IpAddr}
    : c.Within (network, 0) ↔ c.1.isIpv4 = network.isIpv4 := by
  refine ⟨fun h => h.1, fun hfamily => ⟨hfamily, Nat.zero_le _, ?_⟩⟩
  have hlt := addressBits_lt c.1
  rw [hfamily] at hlt
  show addressBits c.1 / 2 ^ (width network.isIpv4 - 0) =
    addressBits network / 2 ^ (width network.isIpv4 - 0)
  rw [Nat.sub_zero, Nat.div_eq_of_lt hlt, Nat.div_eq_of_lt (addressBits_lt network)]

section

variable {excluded : List String}

theorem mem_excludedBlocks {b : Block} : b ∈ excludedBlocks ipv4 excluded ↔
    ∃ text ∈ excluded, ∃ x, parseCidr text = some x ∧ x.1.isIpv4 = ipv4 ∧ x.block = b := by
  unfold excludedBlocks
  simp only [List.mem_map, List.mem_filter, List.mem_filterMap, decide_eq_true_eq]
  constructor
  · rintro ⟨x, ⟨⟨text, htext, hparse⟩, hfamily⟩, rfl⟩
    exact ⟨text, htext, x, hparse, hfamily, rfl⟩
  · rintro ⟨text, htext, x, hparse, hfamily, rfl⟩
    exact ⟨x, ⟨⟨text, htext, hparse⟩, hfamily⟩, rfl⟩

theorem excludedBlocks_fit :
    ∀ b ∈ excludedBlocks ipv4 excluded, b.net < 2 ^ width ipv4 ∧ b.len ≤ width ipv4 := by
  intro b hb
  obtain ⟨text, -, x, hparse, rfl, rfl⟩ := mem_excludedBlocks.mp hb
  exact ⟨addressBits_lt x.1, parseCidr_fits hparse⟩

/-- No excluded text overlaps a host exactly if no excluded block meets its block. -/
theorem excludedBlocks_free {host : String} {c : Cidr} (hhost : parseCidr host = some c)
    (hfamily : c.1.isIpv4 = ipv4) :
    (∀ text ∈ excluded, cidrsOverlap host text = false) ↔
      ∀ b ∈ excludedBlocks ipv4 excluded, ¬ Meets (width ipv4) b c.block := by
  constructor
  · intro hfree b hb hmeets
    obtain ⟨text, htext, x, hparse, hsame, rfl⟩ := mem_excludedBlocks.mp hb
    have hover := (cidrsOverlap_iff hhost hparse).mpr
      ((Cidr.meets_iff hfamily hsame).mpr hmeets.symm)
    rw [hfree text htext] at hover
    cases hover
  · intro hfree text htext
    rw [Bool.eq_false_iff]
    intro hover
    cases hparse : parseCidr text with
    | none =>
      unfold cidrsOverlap poolsOverlap at hover
      simp [hhost, hparse] at hover
    | some x =>
      have hmeets := (cidrsOverlap_iff hhost hparse).mp hover
      have hsame : x.1.isIpv4 = ipv4 := by
        rcases hmeets with h | h
        · exact h.1.symm.trans hfamily
        · exact h.1.trans hfamily
      exact hfree x.block (mem_excludedBlocks.mpr ⟨text, htext, x, hparse, hsame, rfl⟩)
        ((Cidr.meets_iff hfamily hsame).mp hmeets).symm

end

/-- What halving leaves of the space of a family. -/
def parts (ipv4 : Bool) (excluded : List String) : List Block :=
  Block.split (width ipv4) (excludedBlocks ipv4 excluded) (width ipv4) 0

/-- A part is read back as written. -/
theorem parseCidr_part {excluded : List String} {part : Block}
    (hpart : part ∈ parts ipv4 excluded) :
    parseCidr (cidrText (addressOf ipv4 part.net) part.len) =
      some (addressOf ipv4 part.net, part.len) := by
  obtain ⟨hlen, -, haligned⟩ := split_within le_rfl (Nat.dvd_zero _) part hpart
  rw [parseCidr_cidrText, maskAddr_eq_self]
  · rwa [addressOf_isIpv4, addressBits_addressOf (net_lt_of_mem_split hpart)]
  · rwa [addressOf_isIpv4]

/-- The parts are those of the halving, written as prefixes of the route's family. -/
theorem complement_eq {network : IpAddr} {route : String} {len : Nat}
    (hparse : parseCidr route = some (network, len)) (excluded : List String) :
    complement route excluded = (parts network.isIpv4 excluded).map
      fun part => cidrText (addressOf network.isIpv4 part.net) part.len := by
  unfold complement
  rw [hparse]
  dsimp only
  rw [split_eq (fun b hb => (excludedBlocks_fit b hb).1) le_rfl (Nat.two_pow_pos _)]
  rfl

/-- A host lies in a part of the complement exactly if it lies in the default route and
overlaps no excluded prefix. -/
theorem complement_iff {route host : String} (hroute : isDefaultRoute route)
    (excluded : List String) :
    (∃ part ∈ complement route excluded, cidrWithin host part) ↔
      cidrWithin host route ∧ ∀ gone ∈ excluded, cidrsOverlap host gone = false := by
  obtain ⟨network, hparse⟩ := parseCidr_default hroute
  cases hhost : parseCidr host with
  | none =>
    have hnone : ∀ other, cidrWithin host other = false := by
      intro other
      unfold cidrWithin
      rw [hhost]
    simp [hnone]
  | some c =>
    have hpart : ∀ part ∈ parts network.isIpv4 excluded,
        (cidrWithin host (cidrText (addressOf network.isIpv4 part.net) part.len) ↔
          c.1.isIpv4 = network.isIpv4 ∧ Within (width network.isIpv4) c.block part) := by
      intro part hmem
      rw [cidrWithin_iff hhost (parseCidr_part hmem)]
      exact within_addressOf (net_lt_of_mem_split hmem)
    -- In the family of the route, the parts are what halving leaves of the whole space.
    have hsplit : c.1.isIpv4 = network.isIpv4 →
        ((∃ part ∈ parts network.isIpv4 excluded,
            Within (width network.isIpv4) c.block part) ↔
          ∀ b ∈ excludedBlocks network.isIpv4 excluded,
            ¬ Meets (width network.isIpv4) b c.block) := by
      intro hfamily
      rw [← hfamily]
      exact within_whole_iff (fun b hb => (excludedBlocks_fit b hb).2) (addressBits_lt c.1)
    rw [complement_eq hparse, cidrWithin_iff hhost hparse, within_default]
    simp only [List.mem_map, exists_exists_and_eq_and]
    constructor
    · rintro ⟨part, hmem, hwithin⟩
      obtain ⟨hfamily, hin⟩ := (hpart part hmem).mp hwithin
      exact ⟨hfamily, (excludedBlocks_free hhost hfamily).mpr
        ((hsplit hfamily).mp ⟨part, hmem, hin⟩)⟩
    · rintro ⟨hfamily, hfree⟩
      obtain ⟨part, hmem, hin⟩ :=
        (hsplit hfamily).mpr ((excludedBlocks_free hhost hfamily).mp hfree)
      exact ⟨part, hmem, (hpart part hmem).mpr ⟨hfamily, hin⟩⟩

end BlakTail.Forwarding
