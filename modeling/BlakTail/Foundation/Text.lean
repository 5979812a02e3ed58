import Mathlib

/-!
# Text

The string operations of the Rust standard library that parsers of configuration
text use: `trim`, `split_once`, `strip_prefix`, integer parsing and ASCII case
folding.  Each follows its documented behaviour on Unicode text and is written on
the list of characters, so that it computes in the kernel.
-/

namespace BlakTail.Foundation.Text

/-- Unicode `White_Space`, as `char::is_whitespace` decides it. -/
def isWhitespace (c : Char) : Bool :=
  let n := c.toNat
  (9 ≤ n && n ≤ 13) || n == 0x20 || n == 0x85 || n == 0xA0 || n == 0x1680 ||
    (0x2000 ≤ n && n ≤ 0x200A) || n == 0x2028 || n == 0x2029 || n == 0x202F ||
    n == 0x205F || n == 0x3000

/-- Trim on characters: drop leading, then trailing, white space. -/
def trimChars (cs : List Char) : List Char :=
  ((cs.dropWhile isWhitespace).reverse.dropWhile isWhitespace).reverse

/-- `str::trim`. -/
def trim (s : String) : String := String.ofList (trimChars s.toList)

/-- `str::trim_end_matches` for one character. -/
def trimEndMatches (c : Char) (s : String) : String :=
  String.ofList ((s.toList.reverse.dropWhile fun d => d = c).reverse)

/-- `str::trim_start_matches` for one character. -/
def trimStartMatches (c : Char) (s : String) : String :=
  String.ofList (s.toList.dropWhile fun d => d = c)

/-- `str::contains` for a text. -/
def contains (part s : String) : Bool := s.toList.tails.any fun rest => part.toList.isPrefixOf rest

/-- Split at the first occurrence of `sep`, which is dropped. -/
def splitOnceChars (sep : Char) : List Char → Option (List Char × List Char)
  | [] => none
  | c :: cs =>
    if c = sep then some ([], cs)
    else (splitOnceChars sep cs).map fun (l, r) => (c :: l, r)

/-- `str::split_once` for a one-character separator. -/
def splitOnce (sep : Char) (s : String) : Option (String × String) :=
  (splitOnceChars sep s.toList).map fun (l, r) => (String.ofList l, String.ofList r)

/-- Split at every occurrence of `sep`; always at least one part. -/
def splitChars (sep : Char) : List Char → List (List Char)
  | [] => [[]]
  | c :: cs =>
    match splitChars sep cs with
    | [] => [[c]]
    | part :: parts => if c = sep then [] :: part :: parts else (c :: part) :: parts

/-- Split at the last occurrence of `sep`, which is dropped. -/
def rsplitOnceChars (sep : Char) (cs : List Char) : Option (List Char × List Char) :=
  (splitOnceChars sep cs.reverse).map fun (r, l) => (l.reverse, r.reverse)

/-- `str::trim_matches` on characters: drop leading, then trailing, matches. -/
def trimMatchesChars (p : Char → Bool) (cs : List Char) : List Char := (cs.dropWhile p).rdropWhile p

/-- `str::strip_prefix`. -/
def stripPrefix (lead s : String) : Option String :=
  if lead.toList.isPrefixOf s.toList then some (String.ofList (s.toList.drop lead.toList.length))
  else none

def digit (c : Char) : Option Nat :=
  if '0' ≤ c ∧ c ≤ '9' then some (c.toNat - '0'.toNat) else none

/-- The value of a string of decimal digits, or `none` at the first other character. -/
def digits (acc : Nat) : List Char → Option Nat
  | [] => some acc
  | c :: cs => (digit c).bind fun d => digits (acc * 10 + d) cs

/-- Unsigned integer parsing with largest value `max`: an optional `+`, then at
least one digit, and nothing else. -/
def parseUnsignedChars (max : Nat) (cs : List Char) : Option Nat :=
  let body := match cs with
    | '+' :: rest => rest
    | _ => cs
  if body.isEmpty then none
  else (digits 0 body).filter (· ≤ max)

/-- `str::parse::<u8>`. -/
def parseU8 (s : String) : Option Nat := parseUnsignedChars 255 s.toList

/-- `str::parse::<u16>`. -/
def parseU16 (s : String) : Option Nat := parseUnsignedChars 65535 s.toList

/-- `str::parse::<u64>`. -/
def parseU64 (s : String) : Option Nat := parseUnsignedChars (2 ^ 64 - 1) s.toList

/-- `char::is_control`. -/
def isControl (c : Char) : Bool := c.toNat < 32 || (127 ≤ c.toNat && c.toNat < 160)

def toAsciiLower (c : Char) : Char :=
  if 'A' ≤ c ∧ c ≤ 'Z' then Char.ofNat (c.toNat + 32) else c

/-- `str::to_ascii_lowercase`. -/
def toAsciiLowercase (s : String) : String := String.ofList (s.toList.map toAsciiLower)

/-- `str::eq_ignore_ascii_case`. -/
def eqIgnoreAsciiCase (s t : String) : Bool :=
  s.toList.map toAsciiLower == t.toList.map toAsciiLower

def isAsciiAlphabetic (c : Char) : Bool := ('a' ≤ c && c ≤ 'z') || ('A' ≤ c && c ≤ 'Z')

def isAsciiDigit (c : Char) : Bool := '0' ≤ c && c ≤ '9'

def isAsciiLowercase (c : Char) : Bool := 'a' ≤ c && c ≤ 'z'

/-- Length in UTF-8 bytes, as `str::len` counts. -/
def byteLen (s : String) : Nat := (s.toList.map Char.utf8Size).sum

/-- A byte or code unit in lower-case hexadecimal, without leading zeros. -/
def hex (n : Nat) : String := String.ofList (Nat.toDigits 16 n)

/-- Hexadecimal padded with zeros to `width` digits. -/
def hexPadded (width n : Nat) : String :=
  let ds := Nat.toDigits 16 n
  String.ofList (List.replicate (width - ds.length) '0' ++ ds)

def join (sep : String) : List String → String
  | [] => ""
  | [s] => s
  | s :: rest => s ++ sep ++ join sep rest

/-- One character as the debug formatter writes it inside a string.  Characters beyond
ASCII are taken to be printable. -/
def debugChar (c : Char) : List Char :=
  if c = '\x22' ∨ c = '\x5c' then ['\x5c', c]
  else if c = '\n' then ['\x5c', 'n']
  else if c = '\r' then ['\x5c', 'r']
  else if c = '\t' then ['\x5c', 't']
  else if c.toNat = 0 then ['\x5c', '0']
  else if c.toNat < 32 ∨ c.toNat = 127 then
    ['\x5c', 'u', '\x7b'] ++ Nat.toDigits 16 c.toNat ++ ['\x7d']
  else [c]

def debug (s : String) : String :=
  String.ofList (['\x22'] ++ s.toList.flatMap debugChar ++ ['\x22'])

/-! ## Numbers written and read back -/

variable {c : Char} {cs : List Char} {max n : Nat} {s : String} {p : Char → Bool} {sep : Char}
  {front rest : List Char}

theorem digit_eq_some (hc : c.isDigit) : digit c = some (c.toNat - '0'.toNat) := by
  have hrange : '0' ≤ c ∧ c ≤ '9' := by
    simpa [Char.isDigit, Char.le_def] using hc
  simp [digit, hrange]

theorem digits_eq_some (hcs : ∀ c ∈ cs, c.isDigit) (acc : Nat) :
    digits acc cs = some (Nat.ofDigitChars 10 cs acc) := by
  induction cs generalizing acc with
  | nil => rfl
  | cons c cs ih =>
    have hc := digit_eq_some (hcs c List.mem_cons_self)
    simp only [digits, hc, Option.bind_some]
    rw [ih fun d hd => hcs d (List.mem_cons_of_mem c hd), Nat.mul_comm acc 10]
    rfl

theorem parseUnsignedChars_digits (hne : cs ≠ []) (hcs : ∀ c ∈ cs, c.isDigit) :
    parseUnsignedChars max cs = (some (Nat.ofDigitChars 10 cs 0)).filter (· ≤ max) := by
  cases cs with
  | nil => exact absurd rfl hne
  | cons c cs =>
    have hplus : c ≠ '+' := by
      rintro rfl
      exact absurd (hcs '+' List.mem_cons_self) (by decide)
    unfold parseUnsignedChars
    split
    · next heq => exact absurd (List.cons.inj heq).1 hplus
    · rw [← digits_eq_some hcs]
      rfl

theorem toString_toList (n : Nat) : (toString n).toList = Nat.toDigits 10 n := by
  rw [Nat.toString_eq_repr, Nat.repr_eq_ofList_toDigits, String.toList_ofList]

theorem toString_digits : ∀ c ∈ (toString n).toList, c.isDigit := by
  intro c hc
  rw [toString_toList] at hc
  exact Nat.isDigit_of_mem_toDigits (by decide) (by decide) hc

theorem toString_no (hc : c.isDigit = false) : c ∉ (toString n).toList :=
  fun hmem => Bool.false_ne_true (hc.symm.trans (toString_digits c hmem))

/-- What is read is within the bound. -/
theorem parseUnsignedChars_le (h : parseUnsignedChars max cs = some n) : n ≤ max := by
  obtain ⟨-, hdigits⟩ := Option.ite_none_left_eq_some.mp h
  exact of_decide_eq_true (Option.filter_eq_some_iff.mp hdigits).2

/-- A number within its bound is read back as written. -/
theorem parseUnsigned_toString (hn : n ≤ max) :
    parseUnsignedChars max (toString n).toList = some n := by
  have hdigits : ∀ c ∈ Nat.toDigits 10 n, c.isDigit := fun c hc =>
    Nat.isDigit_of_mem_toDigits (by decide) (by decide) hc
  rw [toString_toList, parseUnsignedChars_digits Nat.toDigits_ne_nil hdigits,
    Nat.ofDigitChars_toDigits (by decide) (by decide)]
  simp [hn]

theorem parseU8_toString (hn : n ≤ 255) : parseU8 (toString n) = some n :=
  parseUnsigned_toString hn

theorem parseU16_toString (hn : n ≤ 65535) : parseU16 (toString n) = some n :=
  parseUnsigned_toString hn

theorem dropWhile_eq_self (h : ∀ c ∈ cs, p c = false) : cs.dropWhile p = cs := by
  cases cs with
  | nil => rfl
  | cons c cs => simp [h c List.mem_cons_self]

/-- Text without white space is trimmed to itself. -/
theorem trim_eq_self (h : ∀ c ∈ s.toList, isWhitespace c = false) : trim s = s := by
  have hreverse : ∀ c ∈ s.toList.reverse, isWhitespace c = false := fun c hc =>
    h c (List.mem_reverse.mp hc)
  unfold trim trimChars
  rw [dropWhile_eq_self h, dropWhile_eq_self hreverse, List.reverse_reverse, String.ofList_toList]

theorem splitOnceChars_append (hfront : sep ∉ front) (rest : List Char) :
    splitOnceChars sep (front ++ sep :: rest) = some (front, rest) := by
  induction front with
  | nil => simp [splitOnceChars]
  | cons c front ih =>
    have hc : c ≠ sep := fun heq => hfront (heq ▸ List.mem_cons_self)
    have hrest := ih fun hmem => hfront (List.mem_cons_of_mem c hmem)
    simp [splitOnceChars, hc, hrest]

/-- Text is split at a separator that stands nowhere before. -/
theorem splitOnce_append {front middle : String} (hfront : sep ∉ front.toList)
    (hmiddle : middle.toList = [sep]) (rest : String) :
    splitOnce sep (front ++ middle ++ rest) = some (front, rest) := by
  unfold splitOnce
  rw [String.toList_append, String.toList_append, hmiddle, List.append_assoc,
    List.singleton_append, splitOnceChars_append hfront]
  simp only [Option.map_some, String.ofList_toList]

theorem splitOnceChars_eq_some (h : splitOnceChars sep cs = some (front, rest)) :
    cs = front ++ sep :: rest ∧ sep ∉ front := by
  induction cs generalizing front with
  | nil => simp [splitOnceChars] at h
  | cons c cs ih =>
    unfold splitOnceChars at h
    split_ifs at h with hc
    · cases h
      exact ⟨by rw [hc]; rfl, List.not_mem_nil⟩
    · obtain ⟨⟨front', rest'⟩, hsplit, heq⟩ := Option.map_eq_some_iff.mp h
      cases heq
      obtain ⟨hcs, hmem⟩ := ih hsplit
      refine ⟨by rw [hcs]; rfl, fun hin => ?_⟩
      rcases List.mem_cons.mp hin with heq | hin
      · exact hc heq.symm
      · exact hmem hin

theorem splitOnce_eq_none (h : sep ∉ s.toList) : splitOnce sep s = none := by
  have hchars : ∀ cs : List Char, sep ∉ cs → splitOnceChars sep cs = none := by
    intro cs
    induction cs with
    | nil => exact fun _ => rfl
    | cons c cs ih =>
      intro hmem
      have hc : c ≠ sep := fun heq => hmem (heq ▸ List.mem_cons_self)
      have hcs := ih fun hin => hmem (List.mem_cons_of_mem c hin)
      simp [splitOnceChars, hc, hcs]
  simp [splitOnce, hchars s.toList h]

theorem rsplitOnceChars_eq_some :
    rsplitOnceChars sep cs = some (front, rest) ↔ cs = front ++ sep :: rest ∧ sep ∉ rest := by
  constructor
  · intro h
    obtain ⟨⟨r, l⟩, hsplit, heq⟩ := Option.map_eq_some_iff.mp h
    cases heq
    obtain ⟨hcs, hr⟩ := splitOnceChars_eq_some hsplit
    have hrev := congrArg List.reverse hcs
    simp only [List.reverse_reverse, List.reverse_append, List.reverse_cons, List.append_assoc,
      List.singleton_append] at hrev
    exact ⟨hrev, fun hmem => hr (List.mem_reverse.mp hmem)⟩
  · rintro ⟨rfl, hrest⟩
    have hrev : sep ∉ rest.reverse := fun hmem => hrest (List.mem_reverse.mp hmem)
    simp [rsplitOnceChars, splitOnceChars_append hrev]

/-! ## Letter case -/

/-- A fact about a letter's lower case is checked on the 26 capital letters. -/
theorem toAsciiLower_induction {P : Char → Char → Prop}
    (hupper : ∀ n < 26, P (Char.ofNat (65 + n)) (toAsciiLower (Char.ofNat (65 + n))))
    (hother : ∀ c, ¬('A' ≤ c ∧ c ≤ 'Z') → P c c) (c : Char) : P c (toAsciiLower c) := by
  by_cases hc : 'A' ≤ c ∧ c ≤ 'Z'
  · have hlow : 65 ≤ c.toNat := hc.1
    have hhigh : c.toNat ≤ 90 := hc.2
    have hletter := hupper (c.toNat - 65) (by omega)
    rwa [Nat.add_sub_cancel' hlow, Char.ofNat_toNat] at hletter
  · rw [toAsciiLower, if_neg hc]
    exact hother c hc

theorem toAsciiLower_idem (c : Char) : toAsciiLower (toAsciiLower c) = toAsciiLower c := by
  apply toAsciiLower_induction (P := fun _ lower => toAsciiLower lower = lower)
  · decide
  · exact fun c hc => if_neg hc

theorem eqIgnoreAsciiCase_iff {t : String} :
    eqIgnoreAsciiCase s t ↔ s.toList.map toAsciiLower = t.toList.map toAsciiLower := by
  simp [eqIgnoreAsciiCase]

theorem eqIgnoreAsciiCase_lowercase {t : String} (h : eqIgnoreAsciiCase s t) :
    eqIgnoreAsciiCase s (toAsciiLowercase t) := by
  rw [eqIgnoreAsciiCase_iff] at h ⊢
  rw [h, toAsciiLowercase, String.toList_ofList, List.map_map]
  exact List.map_congr_left fun c _ => (toAsciiLower_idem c).symm

/-! ## Searching and cutting -/

theorem contains_iff {part : String} : contains part s ↔ part.toList <:+: s.toList := by
  simp only [contains, List.any_eq_true, List.mem_tails, List.isPrefixOf_iff_prefix]
  constructor
  · rintro ⟨rest, hrest, hpart⟩
    exact hpart.isInfix.trans hrest.isInfix
  · rintro ⟨before, after, heq⟩
    refine ⟨part.toList ++ after, ⟨before, ?_⟩, List.prefix_append ..⟩
    rw [← heq, List.append_assoc]

/-- Text that neither begins nor ends with a match of `p`. -/
def Trimmed (p : Char → Bool) (cs : List Char) : Prop :=
  (∀ c ∈ cs.head?, p c = false) ∧ ∀ c ∈ cs.getLast?, p c = false

/-- What `dropWhile` leaves begins at the first character that does not match. -/
theorem dropWhile_eq_iff :
    cs.dropWhile p = rest ↔
      ∃ lead, cs = lead ++ rest ∧ (∀ c ∈ lead, p c) ∧ ∀ c ∈ rest.head?, p c = false := by
  constructor
  · rintro rfl
    refine ⟨cs.takeWhile p, List.takeWhile_append_dropWhile.symm,
      fun c hc => List.mem_takeWhile_imp hc, ?_⟩
    intro c hc
    have hne : cs.dropWhile p ≠ [] := by
      intro hnil
      simp [hnil] at hc
    have hhead := List.head_dropWhile_not p hne
    rwa [List.head_eq_iff_head?_eq_some hne |>.mpr hc] at hhead
  · rintro ⟨lead, rfl, hlead, hrest⟩
    induction lead with
    | nil =>
      cases rest with
      | nil => rfl
      | cons c rest => simp [hrest c rfl]
    | cons c lead ih =>
      have hc := hlead c List.mem_cons_self
      simpa [hc] using ih fun d hd => hlead d (List.mem_cons_of_mem c hd)

theorem rdropWhile_eq_iff :
    cs.rdropWhile p = rest ↔
      ∃ trail, cs = rest ++ trail ∧ (∀ c ∈ trail, p c) ∧ ∀ c ∈ rest.getLast?, p c = false := by
  rw [List.rdropWhile, List.reverse_eq_iff, dropWhile_eq_iff]
  constructor
  · rintro ⟨lead, heq, hlead, hrest⟩
    refine ⟨lead.reverse, ?_, fun c hc => hlead c (List.mem_reverse.mp hc), ?_⟩
    · simpa using congrArg List.reverse heq
    · simpa using hrest
  · rintro ⟨trail, rfl, htrail, hrest⟩
    exact ⟨trail.reverse, List.reverse_append, fun c hc => htrail c (List.mem_reverse.mp hc),
      by simpa using hrest⟩

/-- What trimming leaves is the one trimmed text between matches. -/
theorem trimMatchesChars_eq_iff {text : List Char} :
    trimMatchesChars p cs = text ↔
      ∃ lead trail, cs = lead ++ text ++ trail ∧ (∀ c ∈ lead, p c) ∧ (∀ c ∈ trail, p c) ∧
        Trimmed p text := by
  unfold trimMatchesChars
  rw [rdropWhile_eq_iff]
  constructor
  · rintro ⟨trail, hmid, htrail, hlast⟩
    obtain ⟨lead, rfl, hlead, hhead⟩ := dropWhile_eq_iff.mp hmid
    refine ⟨lead, trail, (List.append_assoc ..).symm, hlead, htrail, ?_, hlast⟩
    intro c hc
    exact hhead c (by rw [List.head?_append, hc]; rfl)
  · rintro ⟨lead, trail, rfl, hlead, htrail, hhead, hlast⟩
    cases text with
    | nil =>
      -- nothing but matches: `dropWhile` takes the trailing ones too
      refine ⟨[], dropWhile_eq_iff.mpr ⟨lead ++ trail, by simp, ?_, by simp⟩, by simp, hlast⟩
      exact fun c hc => (List.mem_append.mp hc).elim (hlead c) (htrail c)
    | cons d text =>
      refine ⟨trail, dropWhile_eq_iff.mpr ⟨lead, List.append_assoc .., hlead, ?_⟩, htrail, hlast⟩
      exact fun c hc => hhead c hc

theorem splitOnP_isolated {before part after : List Char} (hpart : ∀ c ∈ part, p c = false)
    (hbefore : ∀ c ∈ before.getLast?, p c) (hafter : ∀ c ∈ after.head?, p c) :
    part ∈ (before ++ part ++ after).splitOnP p := by
  have hrest : part ∈ (part ++ after).splitOnP p := by
    cases after with
    | nil => rw [List.append_nil, List.splitOnP_eq_singleton hpart]; exact List.mem_singleton_self _
    | cons sep after =>
      rw [List.splitOnP_append_cons_of_forall_mem hpart sep (hafter sep rfl)]
      exact List.mem_cons_self
  rcases List.eq_nil_or_concat' before with rfl | ⟨front, sep, rfl⟩
  · simpa using hrest
  · have hsep : p sep := hbefore sep (by simp)
    rw [List.append_assoc, List.append_assoc, List.singleton_append,
      List.splitOnP_append_cons _ _ hsep]
    exact List.mem_append_right _ hrest

/-- The parts of a text are its longest stretches without a separator. -/
theorem mem_splitOnP {part : List Char} :
    part ∈ cs.splitOnP p ↔
      ∃ before after, cs = before ++ part ++ after ∧ (∀ c ∈ part, p c = false) ∧
        (∀ c ∈ before.getLast?, p c) ∧ ∀ c ∈ after.head?, p c := by
  constructor
  · -- by the first separator: the part is what precedes it, or lies after it
    induction hlen : cs.length using Nat.strongRecOn generalizing cs with
    | ind n ih =>
      intro hmem
      rcases hnone : cs.find? p with _ | sep
      · have hall : ∀ c ∈ cs, p c = false := by simpa using hnone
        rw [List.splitOnP_eq_singleton hall, List.mem_singleton] at hmem
        subst hmem
        exact ⟨[], [], by simp, hall, by simp, by simp⟩
      · obtain ⟨hsep, front, rest, rfl, hfront⟩ := List.find?_eq_some_iff_append.mp hnone
        have hfront : ∀ c ∈ front, p c = false := by simpa using hfront
        rw [List.splitOnP_append_cons_of_forall_mem hfront sep hsep] at hmem
        rcases List.mem_cons.mp hmem with rfl | hmem
        · exact ⟨[], sep :: rest, rfl, hfront, by simp, by simpa using hsep⟩
        · have hshort : rest.length < n := by
            rw [← hlen, List.length_append, List.length_cons]
            omega
          obtain ⟨before, after, rfl, hpart, hbefore, hafter⟩ := ih _ hshort rfl hmem
          refine ⟨front ++ sep :: before, after, by simp, hpart, ?_, hafter⟩
          intro c hc
          cases before with
          | nil =>
            obtain rfl : sep = c := by simpa using hc
            exact hsep
          | cons d before => exact hbefore c (by simpa using hc)
  · rintro ⟨before, after, rfl, hpart, hbefore, hafter⟩
    exact splitOnP_isolated hpart hbefore hafter

/-! ## Characters of written text -/

theorem mem_toDigits {base : Nat} (hbase : 1 < base) (hc : c ∈ Nat.toDigits base n) :
    ∃ k < base, c = Nat.digitChar k := by
  induction n using Nat.strongRecOn with
  | ind n ih =>
    rw [Nat.toDigits_eq_if hbase] at hc
    split at hc
    · next hlt => exact ⟨n, hlt, List.mem_singleton.mp hc⟩
    · next hge =>
      have hpos : 0 < n := by omega
      rcases List.mem_append.mp hc with hfront | hlast
      · exact ih (n / base) (Nat.div_lt_self hpos hbase) hfront
      · exact ⟨n % base, Nat.mod_lt n (by omega), List.mem_singleton.mp hlast⟩

theorem toString_no_space (n : Nat) : ∀ c ∈ (toString n).toList, isWhitespace c = false := by
  intro c hc
  rw [toString_toList] at hc
  obtain ⟨k, hk, rfl⟩ := mem_toDigits (by decide) hc
  have hall : ∀ k < 10, isWhitespace (Nat.digitChar k) = false := by decide
  exact hall k hk

theorem trim_toString (n : Nat) : trim (toString n) = toString n :=
  trim_eq_self (toString_no_space n)

theorem mem_join {sep : String} {parts : List String} (hc : c ∈ (join sep parts).toList) :
    c ∈ sep.toList ∨ ∃ part ∈ parts, c ∈ part.toList := by
  induction parts with
  | nil => cases hc
  | cons part rest ih =>
    cases rest with
    | nil => exact .inr ⟨part, List.mem_singleton_self part, hc⟩
    | cons next rest =>
      rw [join, String.toList_append, String.toList_append, List.mem_append, List.mem_append] at hc
      · rcases hc with (hpart | hsep) | hrest
        · exact .inr ⟨part, List.mem_cons_self, hpart⟩
        · exact .inl hsep
        · rcases ih hrest with hsep | ⟨p, hp, hcp⟩
          · exact .inl hsep
          · exact .inr ⟨p, List.mem_cons_of_mem part hp, hcp⟩
      · exact List.cons_ne_nil next rest

/-- Two parts put a separator into the text. -/
theorem join_ne_empty {sep : String} (hsep : sep ≠ "") (first second : String)
    (rest : List String) : join sep (first :: second :: rest) ≠ "" := by
  rw [join]
  · intro h
    have hparts := (String.append_eq_empty_iff.mp h).1
    exact hsep (String.append_eq_empty_iff.mp hparts).2
  · exact List.cons_ne_nil second rest

end BlakTail.Foundation.Text
