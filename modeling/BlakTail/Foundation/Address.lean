import Mathlib
import BlakTail.Foundation.Text

/-!
# IP Addresses

IPv4 and IPv6 addresses with the text forms of the Rust standard library: the
strict reader behind `str::parse::<IpAddr>` (no leading zeros, at most one `::`,
an optional dotted IPv4 tail) and the RFC 5952 writer behind `to_string`.
-/

namespace BlakTail.Foundation

open Text

inductive IpAddr where
  | v4 (bits : BitVec 32)
  | v6 (bits : BitVec 128)
  deriving DecidableEq

namespace IpAddr

/-- Whether the address is an IPv4 address. -/
def isIpv4 : IpAddr → Bool
  | v4 _ => true
  | v6 _ => false

/-- Whether the address is an IPv6 address. -/
def isIpv6 (a : IpAddr) : Bool := !a.isIpv4

/-- The IPv4 address of an IPv4-mapped IPv6 address, and any other address itself. -/
def toCanonical : IpAddr → IpAddr
  | v4 bits => v4 bits
  | v6 bits =>
    if bits.toNat / 4294967296 = 0xffff then v4 (BitVec.ofNat 32 bits.toNat) else v6 bits

/-- Big-endian value of a byte string. -/
def bytesValue (bytes : List UInt8) : Nat := bytes.foldl (fun acc b => acc * 256 + b.toNat) 0

/-- The IPv4 address of four bytes in network order. -/
def ofBytes4 (bytes : List UInt8) : IpAddr := v4 (BitVec.ofNat 32 (bytesValue bytes))

/-- The IPv6 address of sixteen bytes in network order. -/
def ofBytes16 (bytes : List UInt8) : IpAddr := v6 (BitVec.ofNat 128 (bytesValue bytes))

/-! ## Reading

A reader takes the remaining characters and returns a value with what is left. -/

/-- Value of a digit in `radix` (at most 16). -/
def digitIn (radix : Nat) (c : Char) : Option Nat :=
  let v :=
    if '0' ≤ c ∧ c ≤ '9' then some (c.toNat - '0'.toNat)
    else if 'a' ≤ c ∧ c ≤ 'f' then some (c.toNat - 'a'.toNat + 10)
    else if 'A' ≤ c ∧ c ≤ 'F' then some (c.toNat - 'A'.toNat + 10)
    else none
  v.filter (· < radix)

/-- Longest run of digits: its value, its length and the rest. -/
def readDigits (radix : Nat) : Nat → Nat → List Char → Nat × Nat × List Char
  | acc, n, [] => (acc, n, [])
  | acc, n, c :: cs =>
    match digitIn radix c with
    | some d => readDigits radix (acc * radix + d) (n + 1) cs
    | none => (acc, n, c :: cs)

/-- One number of at most `maxDigits` digits, with value at most `max`. -/
def readNumber (radix maxDigits max : Nat) (zeroLead : Bool) (cs : List Char) :
    Option (Nat × List Char) :=
  match readDigits radix 0 0 cs with
  | (value, n, rest) =>
    if n = 0 ∨ maxDigits < n ∨ max < value then none
    else if !zeroLead && cs.head? == some '0' && 1 < n then none
    else some (value, rest)

def readChar (c : Char) : List Char → Option (List Char)
  | d :: cs => if d = c then some cs else none
  | [] => none

/-- A separator before every item but the first. -/
def readSep (c : Char) (index : Nat) (cs : List Char) : Option (List Char) :=
  if index = 0 then some cs else readChar c cs

/-- Four dotted decimal octets. -/
def readIpv4 (cs : List Char) : Option (Nat × List Char) := do
  let (a, cs) ← readNumber 10 3 255 false cs
  let (b, cs) ← readNumber 10 3 255 false (← readChar '.' cs)
  let (c, cs) ← readNumber 10 3 255 false (← readChar '.' cs)
  let (d, cs) ← readNumber 10 3 255 false (← readChar '.' cs)
  return (((a * 256 + b) * 256 + c) * 256 + d, cs)

/-- Up to `limit` colon-separated groups from index `i` on; an IPv4 tail fills two
and ends the list.  Returns the groups, whether an IPv4 tail was read, and the rest. -/
def readGroups (i : Nat) : Nat → List Char → List Nat × Bool × List Char
  | 0, cs => ([], false, cs)
  | limit + 1, cs =>
    let tail := if 0 < limit then (readSep ':' i cs).bind readIpv4 else none
    match tail with
    | some (v, rest) => ([v / 65536, v % 65536], true, rest)
    | none =>
      match (readSep ':' i cs).bind (readNumber 16 4 65535 true) with
      | none => ([], false, cs)
      | some (g, rest) =>
        let (gs, dotted, rest) := readGroups (i + 1) limit rest
        (g :: gs, dotted, rest)

/-- Value of eight 16-bit groups. -/
def groupsValue (gs : List Nat) : Nat := gs.foldl (fun acc g => acc * 65536 + g) 0

/-- A whole IPv6 address: eight groups, or a head and a tail around one `::`. -/
def readIpv6 (cs : List Char) : Option (Nat × List Char) :=
  let (head, dotted, rest) := readGroups 0 8 cs
  if head.length = 8 then some (groupsValue head, rest)
  else if dotted then none
  else do
    let rest ← readChar ':' rest
    let rest ← readChar ':' rest
    let (tail, _, rest) := readGroups 0 (8 - (head.length + 1)) rest
    let zeros := List.replicate (8 - head.length - tail.length) 0
    return (groupsValue (head ++ zeros ++ tail), rest)

/-- The value read when nothing is left over. -/
def whole : Option (Nat × List Char) → Option Nat
  | some (v, []) => some v
  | _ => none

/-- `str::parse::<IpAddr>`. -/
def parse (s : String) : Option IpAddr :=
  match whole (readIpv4 s.toList) with
  | some v => some (v4 (BitVec.ofNat 32 v))
  | none => (whole (readIpv6 s.toList)).map fun v => v6 (BitVec.ofNat 128 v)

/-! ## Writing -/

/-- Dotted decimal form of a 32-bit value. -/
def ipv4Text (v : Nat) : String :=
  join "." ([v / 16777216 % 256, v / 65536 % 256, v / 256 % 256, v % 256].map toString)

/-- The eight 16-bit segments, most significant first. -/
def segments (v : Nat) : List Nat := (List.range 8).map fun i => v / 65536 ^ (7 - i) % 65536

/-- Start and length of the first longest run of zero segments. -/
def longestZeros : Nat → Nat × Nat → Nat × Nat → List Nat → Nat × Nat
  | _, _, best, [] => best
  | i, (start, len), best, g :: gs =>
    if g = 0 then
      let cur := (if len = 0 then i else start, len + 1)
      longestZeros (i + 1) cur (if best.2 < cur.2 then cur else best) gs
    else longestZeros (i + 1) (0, 0) best gs

/-- Colon-separated hexadecimal segments. -/
def segmentsText (gs : List Nat) : String := join ":" (gs.map hex)

/-- RFC 5952 form of a 128-bit value. -/
def ipv6Text (v : Nat) : String :=
  if v / 4294967296 = 0xffff then "::ffff:" ++ ipv4Text (v % 4294967296)
  else
    let gs := segments v
    let (start, len) := longestZeros 0 (0, 0) (0, 0) gs
    if 1 < len then segmentsText (gs.take start) ++ "::" ++ segmentsText (gs.drop (start + len))
    else segmentsText gs

/-- `IpAddr::to_string`. -/
def toText : IpAddr → String
  | v4 bits => ipv4Text bits.toNat
  | v6 bits => ipv6Text bits.toNat

example : (parse "100.64.0.2").map toText = some "100.64.0.2" := by decide

example : (parse "fd00:0:0::1").map toText = some "fd00::1" := by decide

example : parse "01.2.3.4" = none := by decide

/-! ## Characters of written addresses -/

/-- Lower-case hexadecimal digits, dots and colons. -/
def isAddressChar (c : Char) : Bool := "0123456789abcdef.:".toList.contains c

variable {c : Char} {rest : List Char} {radix v : Nat} {cs : List Char}

/-- Numerals with a separator between them, in a radix up to hexadecimal. -/
theorem numerals_chars (base : Nat) (hlow : 1 < base) (hhigh : base ≤ 16) {sep : String}
    (hsep : sep.toList.all isAddressChar) {numeral : Nat → String}
    (hshow : ∀ n, (numeral n).toList = Nat.toDigits base n) (ns : List Nat) :
    ∀ c ∈ (join sep (ns.map numeral)).toList, isAddressChar c := by
  intro c hc
  rcases mem_join hc with hc | ⟨part, hpart, hc⟩
  · exact List.all_eq_true.mp hsep c hc
  · obtain ⟨n, -, rfl⟩ := List.mem_map.mp hpart
    rw [hshow] at hc
    obtain ⟨k, hk, rfl⟩ := mem_toDigits hlow hc
    have hall : ∀ k < 16, isAddressChar (Nat.digitChar k) := by decide
    exact hall k (by omega)

theorem ipv4Text_chars (v : Nat) : ∀ c ∈ (ipv4Text v).toList, isAddressChar c :=
  numerals_chars 10 (by decide) (by decide) (by decide)
    (fun n => by rw [Nat.toString_eq_ofList_toDigits, String.toList_ofList]) _

theorem segmentsText_chars (gs : List Nat) :
    ∀ c ∈ (segmentsText gs).toList, isAddressChar c :=
  numerals_chars 16 (by decide) (by decide) (by decide)
    (fun n => by rw [hex, String.toList_ofList]) _

theorem ipv6Text_chars (v : Nat) : ∀ c ∈ (ipv6Text v).toList, isAddressChar c := by
  intro c hc
  unfold ipv6Text at hc
  have hcolons : ∀ c ∈ "::".toList, isAddressChar c := List.all_eq_true.mp (by decide)
  have hmapped : ∀ c ∈ "::ffff:".toList, isAddressChar c := List.all_eq_true.mp (by decide)
  dsimp only at hc
  split at hc
  · rw [String.toList_append, List.mem_append] at hc
    exact hc.elim (hmapped c) (ipv4Text_chars _ c)
  · split at hc
    · rw [String.toList_append, String.toList_append, List.mem_append, List.mem_append] at hc
      rcases hc with (hc | hc) | hc
      · exact segmentsText_chars _ c hc
      · exact hcolons c hc
      · exact segmentsText_chars _ c hc
    · exact segmentsText_chars _ c hc

variable (a : IpAddr)

/-- An address is written in hexadecimal digits, dots and colons. -/
theorem toText_chars : ∀ c ∈ a.toText.toList, isAddressChar c := by
  cases a with
  | v4 bits => exact ipv4Text_chars _
  | v6 bits => exact ipv6Text_chars _

theorem ipv6Text_ne_empty (v : Nat) : ipv6Text v ≠ "" := by
  unfold ipv6Text
  dsimp only
  split
  · exact fun h => absurd (String.append_eq_empty_iff.mp h).1 (by decide)
  · split
    · intro h
      have hfront := (String.append_eq_empty_iff.mp h).1
      exact absurd (String.append_eq_empty_iff.mp hfront).2 (by decide)
    · exact join_ne_empty (by decide) _ _ _

theorem toText_ne_empty : a.toText ≠ "" := by
  cases a with
  | v4 bits => exact join_ne_empty (by decide) _ _ _
  | v6 bits => exact ipv6Text_ne_empty _

/-! ## Dotted decimal read back -/

theorem digitIn_digitChar {radix k : Nat} (hradix : radix ≤ 16) (hk : k < radix) :
    digitIn radix (Nat.digitChar k) = some k := by
  have hall : ∀ radix ≤ 16, ∀ k < radix, digitIn radix (Nat.digitChar k) = some k := by decide
  exact hall radix hradix k hk

/-- Digits at the front are read one by one. -/
theorem readDigits_append (hradix : radix ≤ 16) {ds : List Char}
    (hds : ∀ c ∈ ds, ∃ k < radix, c = Nat.digitChar k) (tail : List Char) (acc n : Nat) :
    readDigits radix acc n (ds ++ tail) =
      readDigits radix (readDigits radix acc n ds).1 (n + ds.length) tail := by
  induction ds generalizing acc n with
  | nil => rfl
  | cons d ds ih =>
    obtain ⟨k, hk, rfl⟩ := hds d List.mem_cons_self
    have hrec := ih (fun c hc => hds c (List.mem_cons_of_mem _ hc)) (acc * radix + k) (n + 1)
    simp only [List.cons_append, readDigits, digitIn_digitChar hradix hk, hrec, List.length_cons]
    congr 1
    omega

/-- A number is read to its end. -/
theorem readDigits_toDigits (hlow : 1 < radix) (hhigh : radix ≤ 16) (g : Nat)
    (hrest : ∀ c ∈ rest.head?, digitIn radix c = none) (acc n : Nat) :
    readDigits radix acc n (Nat.toDigits radix g ++ rest) =
      (acc * radix ^ (Nat.toDigits radix g).length + g, n + (Nat.toDigits radix g).length,
        rest) := by
  have hstop : ∀ acc n, readDigits radix acc n rest = (acc, n, rest) := by
    intro acc n
    cases rest with
    | nil => rfl
    | cons c rest =>
      have hc := hrest c rfl
      simp [readDigits, hc]
  -- One more digit at the end is one more step.
  have hvalue : (readDigits radix acc n (Nat.toDigits radix g)).1 =
      acc * radix ^ (Nat.toDigits radix g).length + g := by
    induction g using Nat.strongRecOn with
    | ind g ih =>
      rw [Nat.toDigits_eq_if hlow]
      split
      · next hlt => simp [readDigits, digitIn_digitChar hhigh hlt]
      · next hge =>
        rw [readDigits_append hhigh (fun c => mem_toDigits hlow),
          ih (g / radix) (Nat.div_lt_self (by omega) hlow)]
        simp only [readDigits, digitIn_digitChar hhigh (Nat.mod_lt g (by omega)),
          List.length_append, List.length_singleton, Nat.pow_succ]
        rw [Nat.add_mul, Nat.mul_assoc, Nat.add_assoc, Nat.div_add_mod']
  rw [readDigits_append hhigh (fun c => mem_toDigits hlow), hvalue, hstop]

/-- A number within the bounds is read back as written. -/
theorem readNumber_toDigits {n : Nat} (hlow : 1 < radix) (hhigh : radix ≤ 16) {maxDigits max : Nat}
    {zeroLead : Bool} (hdigits : 0 < maxDigits) (hlen : n < radix ^ maxDigits) (hn : n ≤ max)
    (hzero : zeroLead = false → (Nat.toDigits radix n).head? = some '0' →
      (Nat.toDigits radix n).length ≤ 1)
    (hrest : ∀ c ∈ rest.head?, digitIn radix c = none) :
    readNumber radix maxDigits max zeroLead (Nat.toDigits radix n ++ rest) = some (n, rest) := by
  have hshort := (Nat.length_toDigits_le_iff hlow hdigits).mpr hlen
  have hne : Nat.toDigits radix n ≠ [] := Nat.toDigits_ne_nil
  have hpos := List.length_pos_iff.mpr hne
  unfold readNumber
  rw [readDigits_toDigits hlow hhigh n hrest, List.head?_append_of_ne_nil _ hne]
  simp only [Nat.zero_mul, Nat.zero_add]
  rw [if_neg (by omega), if_neg]
  simp only [Bool.and_eq_true, Bool.not_eq_true', beq_iff_eq, decide_eq_true_eq]
  rintro ⟨⟨hlead, hhead⟩, hlong⟩
  have := hzero hlead hhead
  omega

/-- An octet is read back as written: three digits at most, and no leading zero. -/
theorem readNumber_octet {n : Nat} (hn : n < 256) (hrest : ∀ c ∈ rest.head?, digitIn 10 c = none) :
    readNumber 10 3 255 false (Nat.toDigits 10 n ++ rest) = some (n, rest) := by
  have hzero : ∀ n < 256, (Nat.toDigits 10 n).head? = some '0' →
      (Nat.toDigits 10 n).length ≤ 1 := by decide +kernel
  exact readNumber_toDigits (by decide) (by decide) (by decide) (by omega) (by omega)
    (fun _ => hzero n hn) hrest

theorem ipv4Text_toList (v : Nat) :
    (ipv4Text v).toList = Nat.toDigits 10 (v / 16777216 % 256) ++ '.' ::
      (Nat.toDigits 10 (v / 65536 % 256) ++ '.' :: (Nat.toDigits 10 (v / 256 % 256) ++ '.' ::
        Nat.toDigits 10 (v % 256))) := by
  simp [ipv4Text, join, Nat.toString_eq_repr, Nat.repr_eq_ofList_toDigits]

theorem readIpv4_ipv4Text (hv : v < 4294967296) : readIpv4 (ipv4Text v).toList = some (v, []) := by
  have hdot : ∀ rest : List Char, ∀ c ∈ ('.' :: rest).head?, digitIn 10 c = none := by
    rintro rest c ⟨⟩
    decide
  have hoctet : ∀ m rest, readNumber 10 3 255 false (Nat.toDigits 10 (m % 256) ++ '.' :: rest) =
      some (m % 256, '.' :: rest) := fun m rest =>
    readNumber_octet (Nat.mod_lt _ (by decide)) (hdot rest)
  have hend : ∀ c ∈ ([] : List Char).head?, digitIn 10 c = none := by simp
  have hlast := readNumber_octet (Nat.mod_lt v (by decide : 256 > 0)) hend
  rw [List.append_nil] at hlast
  rw [ipv4Text_toList]
  simp only [readIpv4, hoctet, hlast, readChar, Option.bind_eq_bind, Option.bind_some, if_true,
    Option.pure_def, Option.some.injEq, Prod.mk.injEq, and_true]
  omega

/-- An IPv4 address is read back as written. -/
theorem parse_toText_v4 (bits : BitVec 32) : parse (v4 bits).toText = some (v4 bits) := by
  have hread := readIpv4_ipv4Text bits.isLt
  simp only [parse, toText, hread, whole, BitVec.ofNat_toNat, BitVec.setWidth_eq]

/-! ## Hexadecimal groups read back -/

theorem readNumber_hex {g : Nat} (hg : g < 65536) (hrest : ∀ c ∈ rest.head?, digitIn 16 c = none) :
    readNumber 16 4 65535 true ((hex g).toList ++ rest) = some (g, rest) := by
  rw [hex, String.toList_ofList]
  exact readNumber_toDigits (by decide) (by decide) (by decide) (by omega) (by omega)
    (by simp) hrest

/-- A number takes digits from the front of the text and leaves the rest. -/
theorem readDigits_split (radix : Nat) (cs : List Char) (acc n : Nat) :
    ∃ read, cs = read ++ (readDigits radix acc n cs).2.2 ∧
      ∀ c ∈ read, (digitIn radix c).isSome := by
  induction cs generalizing acc n with
  | nil => exact ⟨[], rfl, nofun⟩
  | cons c cs ih =>
    unfold readDigits
    cases hdigit : digitIn radix c with
    | none => exact ⟨[], rfl, nofun⟩
    | some value =>
      obtain ⟨read, hsplit, hread⟩ := ih (acc * radix + value) (n + 1)
      exact ⟨c :: read, congrArg (c :: ·) hsplit,
        List.forall_mem_cons.mpr ⟨by rw [hdigit]; rfl, hread⟩⟩

theorem readNumber_split {value : Nat} {maxDigits max : Nat} {zeroLead : Bool}
    (h : readNumber radix maxDigits max zeroLead cs = some (value, rest)) :
    ∃ read, cs = read ++ rest ∧ ∀ c ∈ read, (digitIn radix c).isSome := by
  have hsplit := readDigits_split radix cs 0 0
  unfold readNumber at h
  split at h
  next value' n rest' hdigits =>
  obtain ⟨-, h⟩ := Option.ite_none_left_eq_some.mp h
  obtain ⟨-, h⟩ := Option.ite_none_left_eq_some.mp h
  cases h
  rwa [hdigits] at hsplit

theorem readChar_read {d : Char} (h : readChar d cs = some rest) : ∀ c ∈ cs, c ∈ rest ∨ c = d := by
  cases cs with
  | nil => cases h
  | cons e cs =>
    obtain ⟨hchar, hrest⟩ := Option.ite_none_right_eq_some.mp h
    cases hrest
    intro c hc
    rcases List.mem_cons.mp hc with rfl | hc
    · exact .inr hchar
    · exact .inl hc

/-- Dotted decimal is made of digits and dots. -/
theorem readIpv4_read {value : Nat} (h : readIpv4 cs = some (value, rest)) :
    ∀ c ∈ cs, c ∈ rest ∨ c = '.' ∨ (digitIn 10 c).isSome := by
  have hnumber : ∀ {cs value rest}, readNumber 10 3 255 false cs = some (value, rest) →
      ∀ c ∈ cs, c ∈ rest ∨ c = '.' ∨ (digitIn 10 c).isSome := by
    intro cs value rest h c hc
    obtain ⟨read, rfl, hread⟩ := readNumber_split h
    rcases List.mem_append.mp hc with hc | hc
    · exact .inr (.inr (hread c hc))
    · exact .inl hc
  have hdot : ∀ {cs rest}, readChar '.' cs = some rest →
      ∀ c ∈ cs, c ∈ rest ∨ c = '.' ∨ (digitIn 10 c).isSome := fun h c hc =>
    (readChar_read h c hc).imp_right .inl
  simp only [readIpv4, bind, Option.bind_eq_some_iff] at h
  obtain ⟨⟨_, cs₁⟩, h₁, cs₂, h₂, ⟨_, cs₃⟩, h₃, cs₄, h₄, ⟨_, cs₅⟩, h₅, cs₆, h₆, ⟨_, cs₇⟩, h₇, h⟩ := h
  cases h
  intro c hc
  -- each reader hands what it leaves to the next
  refine (hnumber h₁ c hc).elim (fun hc => ?_) .inr
  refine (hdot h₂ c hc).elim (fun hc => ?_) .inr
  refine (hnumber h₃ c hc).elim (fun hc => ?_) .inr
  refine (hdot h₄ c hc).elim (fun hc => ?_) .inr
  refine (hnumber h₅ c hc).elim (fun hc => ?_) .inr
  refine (hdot h₆ c hc).elim (fun hc => ?_) .inr
  exact hnumber h₇ c hc

/-- Dotted decimal needs a dot. -/
theorem readIpv4_eq_none (h : '.' ∉ cs) : readIpv4 cs = none := by
  unfold readIpv4
  cases hread : readNumber 10 3 255 false cs with
  | none => rfl
  | some read =>
    obtain ⟨a, rest⟩ := read
    obtain ⟨taken, rfl, -⟩ := readNumber_split hread
    have hdot : readChar '.' rest = none := by
      cases rest with
      | nil => rfl
      | cons c rest =>
        have hc : c ≠ '.' := by
          rintro rfl
          exact h (List.mem_append_right taken List.mem_cons_self)
        simp [readChar, hc]
    simp [hdot]

/-- Groups from index `i` on, with a colon before every one but the first. -/
def groupChars : Nat → List Nat → List Char
  | _, [] => []
  | i, g :: gs => (if i = 0 then [] else [':']) ++ (hex g).toList ++ groupChars (i + 1) gs

theorem segmentsText_toList (gs : List Nat) : (segmentsText gs).toList = groupChars 0 gs := by
  have hrest : ∀ gs i, gs ≠ [] → groupChars (i + 1) gs = ':' :: (segmentsText gs).toList := by
    intro gs
    induction gs with
    | nil => intro i hne; exact absurd rfl hne
    | cons g gs ih =>
      intro i _
      cases gs with
      | nil => simp [groupChars, segmentsText, join]
      | cons g' gs =>
        rw [groupChars, ih (i + 1) (by simp)]
        simp [segmentsText, join]
  cases gs with
  | nil => rfl
  | cons g gs =>
    cases gs with
    | nil => simp [groupChars, segmentsText, join]
    | cons g' gs =>
      rw [groupChars, hrest (g' :: gs) 0 (by simp)]
      simp [segmentsText, join]

/-- Groups hold no dot. -/
theorem groupChars_noDot (gs : List Nat) (i : Nat) : '.' ∉ groupChars i gs := by
  induction gs generalizing i with
  | nil => simp [groupChars]
  | cons g gs ih =>
    have hhex : '.' ∉ (hex g).toList := by
      intro hdot
      rw [hex, String.toList_ofList] at hdot
      obtain ⟨k, hk, heq⟩ := mem_toDigits (by decide) hdot
      have hall : ∀ k < 16, '.' ≠ Nat.digitChar k := by decide
      exact hall k hk heq
    have hsep : '.' ∉ (if i = 0 then [] else [':']) := by split <;> simp
    simp only [groupChars, List.mem_append, not_or]
    exact ⟨⟨hsep, hhex⟩, ih (i + 1)⟩

/-- Groups are read back as written, up to where no group follows. -/
theorem readGroups_groupChars {gs : List Nat} (hgs : ∀ g ∈ gs, g < 65536) {limit i : Nat}
    (hlimit : gs.length ≤ limit) (hdot : '.' ∉ rest)
    (hstop : ∀ c ∈ rest.head?, digitIn 16 c = none)
    (hend : (readSep ':' (i + gs.length) rest).bind (readNumber 16 4 65535 true) = none) :
    readGroups i limit (groupChars i gs ++ rest) = (gs, false, rest) := by
  induction gs generalizing i limit with
  | nil =>
    cases limit with
    | zero => rfl
    | succ limit =>
      have htail : (readSep ':' i rest).bind readIpv4 = none := by
        unfold readSep
        split
        · exact readIpv4_eq_none hdot
        · cases rest with
          | nil => rfl
          | cons c rest =>
            by_cases hc : c = ':'
            · rw [readChar, if_pos hc]
              exact readIpv4_eq_none fun hin => hdot (List.mem_cons_of_mem c hin)
            · rw [readChar, if_neg hc, Option.bind_none]
      show readGroups i (limit + 1) rest = _
      unfold readGroups
      rw [htail, show (readSep ':' i rest).bind (readNumber 16 4 65535 true) = none from hend]
      simp
  | cons g gs ih =>
    cases limit with
    | zero => simp at hlimit
    | succ limit =>
      have hg := hgs g List.mem_cons_self
      have htext : readSep ':' i (groupChars i (g :: gs) ++ rest) =
          some ((hex g).toList ++ (groupChars (i + 1) gs ++ rest)) := by
        rw [readSep, groupChars]
        by_cases hi : i = 0
        · simp [hi]
        · simp [hi, readChar]
      have hnodot : '.' ∉ (hex g).toList ++ (groupChars (i + 1) gs ++ rest) := by
        have hall := groupChars_noDot (g :: gs) i
        simp only [groupChars, List.mem_append, not_or] at hall ⊢
        exact ⟨hall.1.2, hall.2, hdot⟩
      have hnext : ∀ c ∈ (groupChars (i + 1) gs ++ rest).head?, digitIn 16 c = none := by
        cases gs with
        | nil => simpa [groupChars] using hstop
        | cons g' gs =>
          intro c hc
          simp only [groupChars, Nat.add_eq_zero_iff, one_ne_zero, and_false, if_false,
            List.cons_append, List.nil_append, List.head?_cons, Option.mem_some_iff] at hc
          rw [← hc]
          decide
      have hrec : readGroups (i + 1) limit (groupChars (i + 1) gs ++ rest) = (gs, false, rest) := by
        refine ih (fun g' hg' => hgs g' (List.mem_cons_of_mem g hg')) (by simpa using hlimit) ?_
        rwa [List.length_cons, ← Nat.add_assoc, Nat.add_right_comm] at hend
      unfold readGroups
      rw [htext, Option.bind_some, Option.bind_some, readIpv4_eq_none hnodot,
        readNumber_hex hg hnext]
      simp [hrec]

/-! ## IPv6 read back -/

/-- The run that is left out is a run of zeros. -/
theorem longestZeros_spec (gs : List Nat) (before : List Nat) (cur best : Nat × Nat)
    (hcur : cur.2 = 0 ∨ cur.1 + cur.2 = before.length ∧ ∀ g ∈ before.drop cur.1, g = 0)
    (hbest : best.1 + best.2 ≤ before.length ∧ ∀ g ∈ (before.drop best.1).take best.2, g = 0) :
    let found := longestZeros before.length cur best gs
    found.1 + found.2 ≤ (before ++ gs).length ∧
      ∀ g ∈ ((before ++ gs).drop found.1).take found.2, g = 0 := by
  induction gs generalizing before cur best with
  | nil => simpa [longestZeros] using hbest
  | cons g gs ih =>
    obtain ⟨start, len⟩ := cur
    have hlength : (before ++ [g]).length = before.length + 1 := by simp
    have hbest' : best.1 + best.2 ≤ (before ++ [g]).length ∧
        ∀ g' ∈ ((before ++ [g]).drop best.1).take best.2, g' = 0 := by
      refine ⟨by omega, ?_⟩
      have hle : best.1 ≤ before.length := by omega
      have htake : best.2 ≤ (before.drop best.1).length := by
        rw [List.length_drop]
        omega
      rw [List.drop_append_of_le_length hle, List.take_append_of_le_length htake]
      exact hbest.2
    have hassoc : before ++ g :: gs = before ++ [g] ++ gs := by simp
    unfold longestZeros
    dsimp only
    split
    · next hzero =>
      -- The run goes on, or begins here.
      have hrun : (if len = 0 then before.length else start) + (len + 1) = (before ++ [g]).length ∧
          ∀ g' ∈ (before ++ [g]).drop (if len = 0 then before.length else start), g' = 0 := by
        split
        · next hlen => simp [hlen, hzero]
        · next hlen =>
          rcases hcur with hnone | ⟨hsum, hall⟩
          · exact absurd hnone hlen
          · refine ⟨by omega, ?_⟩
            rw [List.drop_append_of_le_length (by omega)]
            intro g' hg'
            rcases List.mem_append.mp hg' with hin | hin
            · exact hall g' hin
            · rw [List.mem_singleton.mp hin, hzero]
      rw [hassoc, ← hlength]
      refine ih (before ++ [g]) _ _ (.inr hrun) ?_
      split
      · refine ⟨Nat.le_of_eq hrun.1, fun g' hg' => hrun.2 g' (List.mem_of_mem_take hg')⟩
      · exact hbest'
    · rw [hassoc, ← hlength]
      exact ih (before ++ [g]) _ _ (.inl rfl) hbest'

theorem groupsValue_segments (hv : v < 2 ^ 128) : groupsValue (segments v) = v := by
  have hrange : List.range 8 = [0, 1, 2, 3, 4, 5, 6, 7] := by decide
  unfold groupsValue segments
  rw [hrange]
  norm_num
  omega

theorem segments_lt (v : Nat) : ∀ g ∈ segments v, g < 65536 := by
  intro g hg
  obtain ⟨i, -, rfl⟩ := List.mem_map.mp hg
  exact Nat.mod_lt _ (by decide)

theorem length_segments (v : Nat) : (segments v).length = 8 := by simp [segments]

/-- Segments without a run left out. -/
theorem readIpv6_segments (hv : v < 2 ^ 128) :
    readIpv6 (segmentsText (segments v)).toList = some (v, []) := by
  have hread : readGroups 0 8 (groupChars 0 (segments v) ++ []) = (segments v, false, []) :=
    readGroups_groupChars (segments_lt v) (Nat.le_of_eq (length_segments v)) (by simp) (by simp)
      (by simp [readSep, length_segments, readChar])
  rw [List.append_nil] at hread
  unfold readIpv6
  rw [segmentsText_toList, hread]
  simp [length_segments, groupsValue_segments hv]

/-- Segments with a run of zeros left out. -/
theorem readIpv6_compressed {start len : Nat} (hv : v < 2 ^ 128) (hlen : 1 < len)
    (hsum : start + len ≤ 8) (hzeros : ∀ g ∈ ((segments v).drop start).take len, g = 0) :
    readIpv6 (segmentsText ((segments v).take start) ++ "::" ++
      segmentsText ((segments v).drop (start + len))).toList = some (v, []) := by
  have hlength := length_segments v
  have htakeLen : ((segments v).take start).length = start := by
    rw [List.length_take]
    omega
  have hdropLen : ((segments v).drop (start + len)).length = 8 - (start + len) := by
    rw [List.length_drop, hlength]
  have htail : readGroups 0 (8 - (start + 1))
      (groupChars 0 ((segments v).drop (start + len)) ++ []) =
        ((segments v).drop (start + len), false, []) := by
    refine readGroups_groupChars (fun g hg => segments_lt v g (List.mem_of_mem_drop hg))
      (by omega) (by simp) (by simp) ?_
    unfold readSep
    split
    · rfl
    · rfl
  rw [List.append_nil] at htail
  have hhead : readGroups 0 8 (groupChars 0 ((segments v).take start) ++
      ':' :: ':' :: groupChars 0 ((segments v).drop (start + len))) =
      ((segments v).take start, false,
        ':' :: ':' :: groupChars 0 ((segments v).drop (start + len))) := by
    refine readGroups_groupChars (fun g hg => segments_lt v g (List.mem_of_mem_take hg))
      (by omega) ?_ ?_ ?_
    · simpa using groupChars_noDot _ 0
    · rintro c ⟨⟩
      decide
    · unfold readSep readChar
      split
      · rfl
      · rfl
  have hvalue : (segments v).take start ++ List.replicate len 0 ++ (segments v).drop (start + len) =
      segments v := by
    have hmiddle : ((segments v).drop start).take len = List.replicate len 0 := by
      refine List.eq_replicate_iff.mpr ⟨?_, hzeros⟩
      rw [List.length_take, List.length_drop]
      omega
    rw [← hmiddle, List.append_assoc, ← List.drop_drop, List.take_append_drop,
      List.take_append_drop]
  have htext : (segmentsText ((segments v).take start) ++ "::" ++
      segmentsText ((segments v).drop (start + len))).toList =
      groupChars 0 ((segments v).take start) ++
        ':' :: ':' :: groupChars 0 ((segments v).drop (start + len)) := by
    simp [segmentsText_toList]
  unfold readIpv6
  rw [htext, hhead]
  simp only [htakeLen, readChar, if_true, Option.bind_eq_bind, Option.bind_some, htail, hdropLen]
  rw [if_neg (by omega)]
  have hcount : 8 - start - (8 - (start + len)) = len := by omega
  simp [hcount, hvalue, groupsValue_segments hv]

/-- The IPv4-mapped form. -/
theorem readIpv6_mapped (hmapped : v / 4294967296 = 0xffff) :
    readIpv6 ("::ffff:" ++ ipv4Text (v % 4294967296)).toList = some (v, []) := by
  have hread : readIpv4 (ipv4Text (v % 4294967296)).toList = some (v % 4294967296, []) :=
    readIpv4_ipv4Text (Nat.mod_lt _ (by decide))
  rw [String.toList_append]
  generalize (ipv4Text (v % 4294967296)).toList = dotted at hread ⊢
  have htext : "::ffff:".toList = [':', ':', 'f', 'f', 'f', 'f', ':'] := by decide
  have hhead : ∀ cs, readGroups 0 8 (':' :: cs) = ([], false, ':' :: cs) := fun cs => rfl
  have hgroup : readNumber 16 4 65535 true ('f' :: 'f' :: 'f' :: 'f' :: ':' :: dotted) =
      some (65535, ':' :: dotted) := rfl
  have hlast : readGroups 1 6 (':' :: dotted) =
      ([v % 4294967296 / 65536, v % 4294967296 % 65536], true, []) := by
    unfold readGroups
    simp [readSep, readChar, hread]
  have htail : readGroups 0 7 ('f' :: 'f' :: 'f' :: 'f' :: ':' :: dotted) =
      ([65535, v % 4294967296 / 65536, v % 4294967296 % 65536], true, []) := by
    have hnone : readIpv4 ('f' :: 'f' :: 'f' :: 'f' :: ':' :: dotted) = none := rfl
    unfold readGroups
    simp [readSep, hnone, hgroup, hlast]
  unfold readIpv6
  rw [htext]
  simp only [List.cons_append, List.nil_append, hhead, List.length_nil, readChar, if_true,
    Option.bind_eq_bind, Option.bind_some, htail]
  have hvalue : groupsValue ([] ++ List.replicate 5 0 ++
      [65535, v % 4294967296 / 65536, v % 4294967296 % 65536]) = v := by
    simp only [groupsValue, List.replicate, List.nil_append, List.cons_append, List.foldl_cons,
      List.foldl_nil]
    omega
  simpa using hvalue

/-- An IPv6 address is read back as written. -/
theorem parse_toText_v6 (bits : BitVec 128) : parse (v6 bits).toText = some (v6 bits) := by
  have hread : readIpv6 (ipv6Text bits.toNat).toList = some (bits.toNat, []) := by
    unfold ipv6Text
    split
    · next hmapped => exact readIpv6_mapped hmapped
    · rcases hfound : longestZeros 0 (0, 0) (0, 0) (segments bits.toNat) with ⟨start, len⟩
      dsimp only
      rw [hfound]
      split
      · next hlen =>
        obtain ⟨hsum, hzeros⟩ := longestZeros_spec (segments bits.toNat) [] (0, 0) (0, 0)
          (.inl rfl) ⟨Nat.le_refl _, by simp⟩
        simp only [List.nil_append, List.length_nil, hfound, length_segments] at hsum hzeros
        exact readIpv6_compressed bits.isLt hlen hsum hzeros
      · exact readIpv6_segments bits.isLt
  have hcolon : readIpv4 (ipv6Text bits.toNat).toList = none := by
    unfold ipv6Text
    split
    · rw [String.toList_append]
      rfl
    · dsimp only
      split
      · apply readIpv4_eq_none
        simp [segmentsText_toList, groupChars_noDot]
      · apply readIpv4_eq_none
        simp [segmentsText_toList, groupChars_noDot]
  rw [parse, toText, hcolon, hread]
  simp [whole]

/-- An address is read back as written. -/
theorem parse_toText : parse a.toText = some a := by
  cases a with
  | v4 bits => exact parse_toText_v4 bits
  | v6 bits => exact parse_toText_v6 bits

/-! ## Telling the families apart -/

/-- The text of an IPv4 address holds no blank. -/
theorem trim_of_parse_v4 {s : String} {bits : BitVec 32} (h : parse s = some (v4 bits)) :
    trim s = s := by
  apply trim_eq_self
  intro c hc
  have hread : c = '.' ∨ (digitIn 10 c).isSome := by
    unfold parse at h
    cases hipv4 : readIpv4 s.toList with
    | none =>
      rw [hipv4] at h
      obtain ⟨value, -, hvalue⟩ := Option.map_eq_some_iff.mp h
      cases hvalue
    | some read =>
      obtain ⟨value, rest⟩ := read
      cases rest with
      | nil => exact (readIpv4_read hipv4 c hc).resolve_left List.not_mem_nil
      | cons d rest =>
        rw [hipv4] at h
        obtain ⟨value, -, hvalue⟩ := Option.map_eq_some_iff.mp h
        cases hvalue
  rcases hread with rfl | hdigit
  · decide
  · have hrange : 48 ≤ c.toNat ∧ c.toNat ≤ 102 := by
      have hle : ∀ {a b : Char}, a ≤ b → a.toNat ≤ b.toNat := fun h => h
      unfold digitIn at hdigit
      split_ifs at hdigit with hten hlower hupper
      · exact ⟨hle hten.1, (hle hten.2).trans (by decide)⟩
      · exact ⟨le_trans (by decide) (hle hlower.1), hle hlower.2⟩
      · exact ⟨le_trans (by decide) (hle hupper.1), (hle hupper.2).trans (by decide)⟩
      · cases hdigit
    simp only [isWhitespace, Bool.or_eq_false_iff, Bool.and_eq_false_iff, decide_eq_false_iff_not,
      beq_eq_false_iff_ne]
    omega

theorem ipv4Text_noColon (v : Nat) : ':' ∉ (ipv4Text v).toList := by
  intro hcolon
  rcases mem_join hcolon with hsep | ⟨part, hpart, hin⟩
  · exact absurd hsep (by decide)
  · obtain ⟨n, -, rfl⟩ := List.mem_map.mp hpart
    exact toString_no (by decide) hin

theorem ipv6Text_colon (v : Nat) : ':' ∈ (ipv6Text v).toList := by
  unfold ipv6Text
  dsimp only
  split
  · rw [String.toList_append]
    exact List.mem_append_left _ (by decide)
  · split
    · rw [String.toList_append, String.toList_append]
      exact List.mem_append_left _ (List.mem_append_right _ (by decide))
    · -- eight groups have a colon after the first
      rw [segmentsText_toList]
      match hgroups : segments v, length_segments v with
      | g :: g' :: gs, _ => simp [groupChars]

/-- Only IPv6 addresses are written with colons. -/
theorem contains_colon : a.toText.toList.contains ':' = a.isIpv6 := by
  cases a with
  | v4 bits =>
    rw [Bool.eq_iff_iff, List.contains_iff_mem]
    exact iff_of_false (ipv4Text_noColon _) Bool.false_ne_true
  | v6 bits =>
    rw [Bool.eq_iff_iff, List.contains_iff_mem]
    exact iff_of_true (ipv6Text_colon _) rfl

end IpAddr

end BlakTail.Foundation
