import BlakTail.Foundation.Fallible
import BlakTail.Foundation.Slices

/-!
# Guacamole Instructions

The gateway relays what a browser sends to guacd.  An instruction is a list of elements,
each written as its length in characters, a dot and its text; elements are separated by
commas and a semicolon ends the instruction.  `filter_client` splits the browser's text with
`parse_one` and keeps the instructions whose opcode is allowed.
-/

namespace BlakTail.Gateway

open Foundation Foundation.Text

/-! ## The code -/

def MAX_INSTRUCTION_BYTES : Nat := 8 * 1024 * 1024

/-- The opcodes a browser may send. -/
def CLIENT_OPCODES : List String :=
  ["ack", "blob", "clipboard", "disconnect", "end", "key", "mouse", "nop", "size", "sync", "touch"]

inductive GuacError where
  | connect (reason : String)
  | handshake (reason : String)
  | malformed
  deriving DecidableEq

/-- How a call may end without a value: with an error, in a slice that is off a character
boundary, or not at all. -/
inductive Fault where
  | error (e : GuacError)
  | panicked
  | unfinished
  deriving DecidableEq

/-- `Err(GuacError::Malformed)`. -/
def malformed {α : Type} : Except Fault α := .error (.error .malformed)

/-- `&text[position..]`. -/
def sliceFrom (text : List Char) (position : Nat) : Except Fault (List Char) :=
  match splitBytes text position with
  | some (_, rest) => .ok rest
  | none => .error .panicked

/-- `&text[..position]`. -/
def sliceTo (text : List Char) (position : Nat) : Except Fault (List Char) :=
  match splitBytes text position with
  | some (front, _) => .ok front
  | none => .error .panicked

/-- One element as `encode` writes it. -/
def encodeElement (element : List Char) : List Char :=
  Nat.toDigits 10 element.length ++ '.' :: element

/-- Encodes one instruction.  Lengths count Unicode code points. -/
def encode (elements : List (List Char)) : List Char :=
  [','].intercalate (elements.map encodeElement) ++ [';']

/-- The loop of `parse_one` from a byte position on. -/
def parseFrom (text : List Char) : Nat → List (List Char) → Nat →
    Except Fault (Option (List (List Char) × Nat))
  | 0, _, _ => .error .unfinished
  | fuel + 1, elements, position => do
    let rest ← sliceFrom text position
    match splitOnceChars '.' rest with
    | none =>
      if 10 < bytes rest || !rest.all isAsciiDigit then malformed else .ok none
    | some (number, _) =>
      match parseUnsignedChars (2 ^ 64 - 1) number with
      | none => malformed
      | some length =>
        if MAX_INSTRUCTION_BYTES < length then malformed
        else do
          let valueStart := position + bytes number + 1
          let value ← sliceFrom text valueStart
          -- `chars.next()` runs out before `length` characters are read.
          if value.length < length then .ok none
          else do
            let stop := valueStart + bytes (value.take length)
            let elements := elements ++ [value.take length]
            match ← sliceFrom text stop with
            | ',' :: _ => parseFrom text fuel elements (stop + 1)
            | ';' :: _ => .ok (some (elements, stop + 1))
            | _ :: _ => malformed
            | [] => .ok none

/-- Parses one complete instruction from the start of `text`: its elements and the byte
length consumed, or `none` when incomplete. -/
def parseOne (text : List Char) : Except Fault (Option (List (List Char) × Nat)) :=
  parseFrom text (text.length + 1) [] 0

def allowed (elements : List (List Char)) : Bool :=
  elements.head?.any fun opcode => CLIENT_OPCODES.contains (String.ofList opcode)

/-- The loop of `filter_client` from a byte position on. -/
def filterFrom (text : List Char) : Nat → Nat → List Char → Except Fault (List Char)
  | 0, _, _ => .error .unfinished
  | fuel + 1, position, out =>
    if position < bytes text then do
      let rest ← sliceFrom text position
      match ← parseOne rest with
      | none => malformed
      | some (elements, used) => do
        let raw ← sliceTo rest used
        filterFrom text fuel (position + used) (if allowed elements then out ++ raw else out)
    else .ok out

/-- Keeps only well-formed browser instructions with allowlisted opcodes. -/
def filterClient (text : List Char) : Except Fault (List Char) :=
  filterFrom text (text.length + 1) 0 []

/-! ## The grammar -/

/-- One element: a number, a dot, and as many characters as the number says. -/
structure Element (raw value : List Char) : Prop where
  written : ∃ number, raw = number ++ '.' :: value ∧ '.' ∉ number ∧
    parseUnsignedChars (2 ^ 64 - 1) number = some value.length
  bounded : value.length ≤ MAX_INSTRUCTION_BYTES

/-- One instruction, from its first number to its semicolon. -/
inductive Instruction : List Char → List (List Char) → Prop where
  | last {raw value : List Char} : Element raw value → Instruction (raw ++ [';']) [value]
  | more {raw value rest : List Char} {values : List (List Char)} : Element raw value →
      Instruction rest values → Instruction (raw ++ ',' :: rest) (value :: values)

variable {raw : List Char} {parts : List (List Char × List (List Char))}

theorem Instruction.raw_ne_nil {values : List (List Char)}
    (h : Instruction raw values) : raw ≠ [] := by
  cases h with
  | last _ | more _ _ => simp

@[simp] theorem sliceFrom_append (front rest : List Char) :
    sliceFrom (front ++ rest) (bytes front) = .ok rest := by
  simp [sliceFrom, splitBytes_append]

@[simp] theorem sliceTo_append (front rest : List Char) :
    sliceTo (front ++ rest) (bytes front) = .ok front := by
  simp [sliceTo, splitBytes_append]

/-! ## One turn of the parser -/

section Turn

variable {front : List Char} (fuel : Nat) (elements : List (List Char))

/-- What a turn does at an element, by the character after it. -/
theorem parseFrom_element {raw value : List Char} (h : Element raw value) (rest : List Char) :
    parseFrom (front ++ (raw ++ rest)) (fuel + 1) elements (bytes front) =
      match rest with
      | ',' :: _ => parseFrom (front ++ (raw ++ rest)) fuel (elements ++ [value])
          (bytes (front ++ raw) + 1)
      | ';' :: _ => .ok (some (elements ++ [value], bytes (front ++ raw) + 1))
      | _ :: _ => malformed
      | [] => .ok none := by
  obtain ⟨number, rfl, hdot, hparse⟩ := h.written
  have hsplit : splitOnceChars '.' ((number ++ '.' :: value) ++ rest) =
      some (number, value ++ rest) := by
    simpa using splitOnceChars_append hdot (value ++ rest)
  have hvalue : sliceFrom (front ++ ((number ++ '.' :: value) ++ rest))
      (bytes front + bytes number + 1) = .ok (value ++ rest) := by
    have := sliceFrom_append (front ++ number ++ ['.']) (value ++ rest)
    simpa [Char.utf8Size, Nat.add_assoc] using this
  have hstop : sliceFrom (front ++ ((number ++ '.' :: value) ++ rest))
      (bytes front + bytes number + 1 + bytes value) = .ok rest := by
    have := sliceFrom_append (front ++ number ++ ['.'] ++ value) rest
    simpa [Char.utf8Size, Nat.add_assoc] using this
  have hbytes : bytes (front ++ (number ++ '.' :: value)) =
      bytes front + bytes number + 1 + bytes value := by
    simp [Char.utf8Size]
    omega
  rw [parseFrom, sliceFrom_append]
  simp only [hsplit, hparse, ok_bind, hvalue, List.length_append, List.take_left', hstop,
    if_neg (not_lt.mpr h.bounded), if_neg (not_lt.mpr (Nat.le_add_right value.length rest.length)),
    hbytes]

/-- A turn that goes on or succeeds has read an element. -/
theorem parseFrom_cases (rest : List Char) :
    (∃ raw value rest', rest = raw ++ rest' ∧ Element raw value) ∨
      parseFrom (front ++ rest) (fuel + 1) elements (bytes front) = malformed ∨
      parseFrom (front ++ rest) (fuel + 1) elements (bytes front) = .ok none := by
  rw [parseFrom, sliceFrom_append, ok_bind]
  cases hsplit : splitOnceChars '.' rest with
  | none =>
    split_ifs
    · exact .inr (.inl rfl)
    · exact .inr (.inr rfl)
  | some parts =>
    obtain ⟨number, after⟩ := parts
    obtain ⟨rfl, hdot⟩ := splitOnceChars_eq_some hsplit
    have hafter : sliceFrom (front ++ (number ++ '.' :: after)) (bytes front + bytes number + 1) =
        .ok after := by
      have := sliceFrom_append (front ++ number ++ ['.']) after
      simpa [Char.utf8Size, Nat.add_assoc] using this
    cases hparse : parseUnsignedChars (2 ^ 64 - 1) number with
    | none => exact .inr (.inl (by simp only [hparse]))
    | some length =>
      simp only [hparse, hafter, ok_bind]
      split_ifs with hmax hshort
      · exact .inr (.inl rfl)
      · exact .inr (.inr rfl)
      · -- Enough characters follow the dot: they are the element's text.
        have hlength : (after.take length).length = length :=
          List.length_take_of_le (not_lt.mp hshort)
        refine .inl ⟨number ++ '.' :: after.take length, after.take length, after.drop length,
          by simp, ⟨⟨number, rfl, hdot, ?_⟩, ?_⟩⟩
        · rw [hlength, hparse]
        · rw [hlength]
          exact not_lt.mp hmax

end Turn

/-! ## The parser finds the instruction the text starts with -/

variable {fuel : Nat} {front rest : List Char} {elements : List (List Char)}

/-- Reading an instruction from a position on. -/
theorem parseFrom_instruction {values : List (List Char)}
    (h : Instruction raw values) (hfuel : raw.length ≤ fuel)
    (front rest : List Char) (elements : List (List Char)) :
    parseFrom (front ++ (raw ++ rest)) fuel elements (bytes front) =
      .ok (some (elements ++ values, bytes (front ++ raw))) := by
  -- The instruction is read element by element; each turn moves one element to `front`.
  induction h generalizing fuel front elements with
  | @last raw value helement =>
    obtain ⟨fuel, rfl⟩ : ∃ n, fuel = n + 1 := ⟨fuel - 1, by simp at hfuel; omega⟩
    rw [List.append_assoc, parseFrom_element fuel elements helement]
    simp [Char.utf8Size, Nat.add_assoc]
  | @more raw value next values helement _ ih =>
    obtain ⟨fuel, rfl⟩ : ∃ n, fuel = n + 1 := ⟨fuel - 1, by simp at hfuel; omega⟩
    have hnext : next.length ≤ fuel := by
      simp at hfuel
      omega
    have hread := ih hnext (front ++ raw ++ [',']) (elements ++ [value])
    rw [List.append_assoc, List.cons_append, parseFrom_element fuel elements helement]
    simpa [Char.utf8Size, Nat.add_assoc] using hread

/-- What the parser returns was read from an instruction. -/
theorem parseFrom_eq_some {used : Nat} {found : List (List Char)}
    (h : parseFrom (front ++ rest) fuel elements (bytes front) = .ok (some (found, used))) :
    ∃ raw rest' values, rest = raw ++ rest' ∧ Instruction raw values ∧
      found = elements ++ values ∧ used = bytes (front ++ raw) := by
  induction fuel generalizing front rest elements with
  | zero => simp [parseFrom] at h
  | succ fuel ih =>
    rcases parseFrom_cases fuel elements rest with ⟨raw, value, rest', rfl, helement⟩ | hbad | hnone
    · rw [parseFrom_element fuel elements helement] at h
      split at h
      · -- A comma: the other elements follow.
        next tail =>
        have hmoved : parseFrom ((front ++ raw ++ [',']) ++ tail) fuel (elements ++ [value])
            (bytes (front ++ raw ++ [','])) = .ok (some (found, used)) := by
          simpa [Char.utf8Size, Nat.add_assoc] using h
        obtain ⟨raw', rest', values, rfl, hvalues, rfl, rfl⟩ := ih hmoved
        exact ⟨raw ++ ',' :: raw', rest', value :: values, by simp, .more helement hvalues,
          by simp, by simp⟩
      · next tail =>
        cases h
        exact ⟨raw ++ [';'], tail, [value], by simp, .last helement, rfl,
          by simp [Char.utf8Size, Nat.add_assoc]⟩
      · cases h
      · cases h
    · rw [hbad] at h
      cases h
    · rw [hnone] at h
      cases h

/-- The parser comes to an end, and never slices inside a character. -/
theorem parseFrom_total (front : List Char) (hfuel : rest.length < fuel)
    (elements : List (List Char)) :
    (∃ found, parseFrom (front ++ rest) fuel elements (bytes front) = .ok found) ∨
      parseFrom (front ++ rest) fuel elements (bytes front) = malformed := by
  induction fuel generalizing front rest elements with
  | zero => exact absurd hfuel (Nat.not_lt_zero _)
  | succ fuel ih =>
    rcases parseFrom_cases fuel elements rest with ⟨raw, value, rest', rfl, helement⟩ | hbad | hnone
    · rw [parseFrom_element fuel elements helement]
      split
      · next tail =>
        have htail : tail.length < fuel := by
          simp at hfuel
          omega
        have hturn := ih (front ++ raw ++ [',']) htail (elements ++ [value])
        simpa [Char.utf8Size, Nat.add_assoc] using hturn
      · exact .inl ⟨_, rfl⟩
      · exact .inr rfl
      · exact .inl ⟨_, rfl⟩
    · exact .inr hbad
    · exact .inl ⟨_, hnone⟩

theorem parseOne_total (text : List Char) :
    (∃ found, parseOne text = .ok found) ∨ parseOne text = malformed :=
  parseFrom_total [] (Nat.lt_succ_self text.length) []

/-- `parse_one` finds exactly the instruction that the text starts with. -/
theorem parseOne_eq_some {used : Nat} {text : List Char} :
    parseOne text = .ok (some (elements, used)) ↔
      ∃ raw rest, text = raw ++ rest ∧ Instruction raw elements ∧ used = bytes raw := by
  constructor
  · intro h
    have hstart : parseFrom ([] ++ text) (text.length + 1) [] (bytes []) =
        .ok (some (elements, used)) := h
    obtain ⟨raw, rest, values, rfl, hvalues, rfl, rfl⟩ := parseFrom_eq_some hstart
    exact ⟨raw, rest, rfl, hvalues, rfl⟩
  · rintro ⟨raw, rest, rfl, hinstruction, rfl⟩
    have hfuel : raw.length ≤ (raw ++ rest).length + 1 := by
      simp
      omega
    exact parseFrom_instruction hinstruction hfuel [] rest []

/-- What `encode` writes is an instruction, so `parse_one` reads it back. -/
theorem encode_instruction {element : List Char}
    (hsize : ∀ e ∈ element :: elements, e.length ≤ MAX_INSTRUCTION_BYTES) :
    Instruction (encode (element :: elements)) (element :: elements) := by
  have helement : ∀ e : List Char, e.length ≤ MAX_INSTRUCTION_BYTES →
      Element (encodeElement e) e := by
    intro e he
    refine ⟨⟨Nat.toDigits 10 e.length, rfl, ?_, ?_⟩, he⟩
    · intro hdot
      exact absurd (Nat.isDigit_of_mem_toDigits (by decide) (by decide) hdot) (by decide)
    · have hdigits : ∀ c ∈ Nat.toDigits 10 e.length, c.isDigit := fun c hc =>
        Nat.isDigit_of_mem_toDigits (by decide) (by decide) hc
      have hmax : e.length ≤ 2 ^ 64 - 1 := le_trans he (by decide)
      rw [parseUnsignedChars_digits Nat.toDigits_ne_nil hdigits,
        Nat.ofDigitChars_toDigits (by decide) (by decide)]
      exact Option.filter_some_pos (decide_eq_true hmax)
  induction elements generalizing element with
  | nil =>
    have hlast := Instruction.last (helement element (hsize element List.mem_cons_self))
    simpa [encode, List.intercalate] using hlast
  | cons next elements ih =>
    have hrest := ih fun e he => hsize e (List.mem_cons_of_mem element he)
    have hmore := Instruction.more (helement element (hsize element List.mem_cons_self)) hrest
    simpa [encode, List.intercalate] using hmore

/-! ## Streams of instructions -/

/-- Splitting a text repeatedly with `parse_one`, to its end. -/
def splitFrom (text : List Char) : Nat → Nat → Except Fault (List (List (List Char)))
  | 0, _ => .error .unfinished
  | fuel + 1, position =>
    if position < bytes text then do
      let rest ← sliceFrom text position
      match ← parseOne rest with
      | none => malformed
      | some (elements, used) => do
        let others ← splitFrom text fuel (position + used)
        .ok (elements :: others)
    else .ok []

def instructions (text : List Char) : Except Fault (List (List (List Char))) :=
  splitFrom text (text.length + 1) 0

/-- Instructions with the texts they were read from. -/
def WellFormed (parts : List (List Char × List (List Char))) : Prop :=
  ∀ part ∈ parts, Instruction part.1 part.2

/-- The text of the parts, one after the other. -/
def joined (parts : List (List Char × List (List Char))) : List Char :=
  (parts.map Prod.fst).flatten

@[simp] theorem joined_nil : joined [] = [] := rfl

@[simp] theorem joined_cons (part : List Char × List (List Char))
    (parts : List (List Char × List (List Char))) :
    joined (part :: parts) = part.1 ++ joined parts := rfl

theorem not_at_end (hraw : raw ≠ []) (rest : List Char) :
    bytes front < bytes (front ++ (raw ++ rest)) := by
  have := bytes_pos hraw
  simp
  omega

/-- Splitting whole instructions finds them all, wherever they stand. -/
theorem splitFrom_joined (h : WellFormed parts) (hfuel : parts.length < fuel) (front : List Char) :
    splitFrom (front ++ joined parts) fuel (bytes front) = .ok (parts.map Prod.snd) := by
  induction parts generalizing fuel front with
  | nil =>
    obtain ⟨fuel, rfl⟩ : ∃ n, fuel = n + 1 := ⟨fuel - 1, by simp at hfuel; omega⟩
    simp [splitFrom]
  | cons part parts ih =>
    obtain ⟨hpart, hparts⟩ := List.forall_mem_cons.mp h
    obtain ⟨fuel, rfl⟩ : ∃ n, fuel = n + 1 := ⟨fuel - 1, by simp at hfuel; omega⟩
    have hothers := ih hparts (by simpa using hfuel) (front ++ part.1)
    rw [List.append_assoc, bytes_append] at hothers
    rw [joined_cons, splitFrom, if_pos (not_at_end hpart.raw_ne_nil _)]
    have hread := parseOne_eq_some.mpr ⟨part.1, joined parts, rfl, hpart, rfl⟩
    simp [hread, hothers]

theorem length_le_joined (h : WellFormed parts) : parts.length ≤ (joined parts).length := by
  induction parts with
  | nil => exact le_rfl
  | cons part parts ih =>
    obtain ⟨hpart, hparts⟩ := List.forall_mem_cons.mp h
    have hpos := List.length_pos_of_ne_nil hpart.raw_ne_nil
    have hrest := ih hparts
    simp
    omega

theorem instructions_joined (h : WellFormed parts) :
    instructions (joined parts) = .ok (parts.map Prod.snd) :=
  splitFrom_joined h (Nat.lt_succ_of_le (length_le_joined h)) []

/-! ## The filter -/

/-- The filter keeps the texts of the allowed instructions. -/
theorem filterFrom_eq_ok {out : List Char} {result : List Char}
    (h : filterFrom (front ++ rest) fuel (bytes front) out = .ok result) :
    ∃ parts, WellFormed parts ∧ rest = joined parts ∧
      result = out ++ joined (parts.filter fun part => allowed part.2) := by
  induction fuel generalizing front rest out with
  | zero => simp [filterFrom] at h
  | succ fuel ih =>
    unfold filterFrom at h
    split_ifs at h with hend
    · rw [sliceFrom_append, ok_bind] at h
      obtain ⟨found, hfound, h⟩ := bind_ok_iff.mp h
      match found with
      | none => cases h
      | some (elements, used) =>
        obtain ⟨raw, rest', rfl, hinstruction, rfl⟩ := parseOne_eq_some.mp hfound
        simp only [sliceTo_append, ok_bind] at h
        rw [← bytes_append, ← List.append_assoc] at h
        -- The instruction joins `front`; nothing behind it moves.
        obtain ⟨parts, hparts, rfl, rfl⟩ := ih h
        refine ⟨(raw, elements) :: parts, List.forall_mem_cons.mpr ⟨hinstruction, hparts⟩, rfl, ?_⟩
        cases hallowed : allowed elements <;> simp [hallowed]
    · have hrest : rest = [] := by
        by_contra hne
        have := bytes_pos hne
        simp at hend
        omega
      exact ⟨[], List.forall_mem_nil _, hrest, by simpa using (Except.ok.inj h).symm⟩

/-- The filter comes to an end, and never slices inside a character. -/
theorem filterFrom_total {out : List Char} (front : List Char) (hfuel : rest.length < fuel) :
    (∃ result, filterFrom (front ++ rest) fuel (bytes front) out = .ok result) ∨
      filterFrom (front ++ rest) fuel (bytes front) out = malformed := by
  induction fuel generalizing front rest out with
  | zero => exact absurd hfuel (Nat.not_lt_zero _)
  | succ fuel ih =>
    unfold filterFrom
    split_ifs with hend
    · rw [sliceFrom_append, ok_bind]
      rcases parseOne_total rest with ⟨found, hfound⟩ | hbad
      · match found with
        | none => exact .inr (by rw [hfound]; rfl)
        | some (elements, used) =>
          obtain ⟨raw, rest', rfl, hinstruction, rfl⟩ := parseOne_eq_some.mp hfound
          have hshorter : rest'.length < fuel := by
            have := List.length_pos_of_ne_nil hinstruction.raw_ne_nil
            simp at hfuel
            omega
          simp only [hfound, ok_bind, sliceTo_append]
          rw [← bytes_append, ← List.append_assoc]
          exact ih (front ++ raw) hshorter
      · exact .inr (by rw [hbad]; rfl)
    · exact .inl ⟨out, rfl⟩

theorem filterClient_total (text : List Char) :
    (∃ out, filterClient text = .ok out) ∨ filterClient text = malformed :=
  filterFrom_total [] (Nat.lt_succ_self text.length)

/-- Whole instructions are filtered by their opcode, wherever they stand. -/
theorem filterFrom_joined (h : WellFormed parts) (hfuel : parts.length < fuel)
    (front out : List Char) :
    filterFrom (front ++ joined parts) fuel (bytes front) out =
      .ok (out ++ joined (parts.filter fun part => allowed part.2)) := by
  induction parts generalizing fuel front out with
  | nil =>
    obtain ⟨fuel, rfl⟩ : ∃ n, fuel = n + 1 := ⟨fuel - 1, by simp at hfuel; omega⟩
    simp [filterFrom]
  | cons part parts ih =>
    obtain ⟨hpart, hparts⟩ := List.forall_mem_cons.mp h
    obtain ⟨fuel, rfl⟩ : ∃ n, fuel = n + 1 := ⟨fuel - 1, by simp at hfuel; omega⟩
    have hothers := ih hparts (by simpa using hfuel) (front ++ part.1)
    rw [List.append_assoc, bytes_append] at hothers
    rw [joined_cons, filterFrom, if_pos (not_at_end hpart.raw_ne_nil _)]
    have hread := parseOne_eq_some.mpr ⟨part.1, joined parts, rfl, hpart, rfl⟩
    cases hallowed : allowed part.2 <;> simp [hread, hothers, hallowed]

/-- **The filter decides every text**: it keeps the allowed ones of a text made of instructions, and
refuses any other. -/
theorem filterClient_decides (text : List Char) :
    (∃ parts, WellFormed parts ∧ text = joined parts ∧
        filterClient text = .ok (joined (parts.filter fun part => allowed part.2))) ∨
      (∀ parts, WellFormed parts → text ≠ joined parts) ∧ filterClient text = malformed := by
  by_cases hsplit : ∃ parts, WellFormed parts ∧ text = joined parts
  · obtain ⟨parts, hparts, rfl⟩ := hsplit
    have hfuel := Nat.lt_succ_of_le (length_le_joined hparts)
    exact .inl ⟨parts, hparts, rfl, filterFrom_joined hparts hfuel [] []⟩
  · refine .inr ⟨fun parts hparts htext => hsplit ⟨parts, hparts, htext⟩, ?_⟩
    rcases filterClient_total text with ⟨out, hout⟩ | hbad
    · obtain ⟨parts, hparts, htext, -⟩ := filterFrom_eq_ok (show
        filterFrom ([] ++ text) (text.length + 1) (bytes []) [] = .ok out from hout)
      exact absurd ⟨parts, hparts, htext⟩ hsplit
    · exact hbad

/-- **Encoded instructions are read back**, and relayed exactly if their opcode is allowed,
whatever their elements hold. -/
theorem filterClient_encoded (sent : List (List (List Char)))
    (h : ∀ elements ∈ sent, elements ≠ [] ∧ ∀ e ∈ elements, e.length ≤ MAX_INSTRUCTION_BYTES) :
    instructions (sent.flatMap encode) = .ok sent ∧
      filterClient (sent.flatMap encode) = .ok ((sent.filter allowed).flatMap encode) := by
  have hjoined : ∀ sent : List (List (List Char)),
      joined (sent.map fun elements => (encode elements, elements)) = sent.flatMap encode := by
    intro sent
    simp [joined, List.flatMap_def, Function.comp_def]
  have hparts : WellFormed (sent.map fun elements => (encode elements, elements)) := by
    intro part hpart
    obtain ⟨elements, helements, rfl⟩ := List.mem_map.mp hpart
    obtain ⟨hne, hsize⟩ := h elements helements
    obtain ⟨element, rest, rfl⟩ := List.exists_cons_of_ne_nil hne
    exact encode_instruction hsize
  have hread := instructions_joined hparts
  have hfilter := filterFrom_joined hparts (Nat.lt_succ_of_le (length_le_joined hparts)) [] []
  simp only [List.filter_map, List.nil_append, hjoined] at hread hfilter
  refine ⟨?_, hfilter⟩
  simpa [Function.comp_def] using hread

/-- A file instruction is relayed as a clipboard's text only. -/
theorem filterClient_encoded_clipboard :
    filterClient ([["clipboard".toList, "4.file;".toList], ["file".toList]].flatMap encode) =
      .ok "9.clipboard,7.4.file;;".toList :=
  (filterClient_encoded _ (by decide)).2

/-- **The filter relays whole instructions.**  Text that passes splits into instructions, and
what is relayed splits, to its end and without an error, into exactly those whose opcode is
allowed. -/
theorem filterClient_instructions (text out : List Char) (h : filterClient text = .ok out) :
    ∃ sent, instructions text = .ok sent ∧ instructions out = .ok (sent.filter allowed) := by
  obtain ⟨parts, hparts, rfl, rfl⟩ := filterFrom_eq_ok (show
    filterFrom ([] ++ text) (text.length + 1) (bytes []) [] = .ok out from h)
  have hkept : WellFormed (parts.filter fun part => allowed part.2) :=
    fun part hpart => hparts part (List.mem_filter.mp hpart).1
  refine ⟨parts.map Prod.snd, instructions_joined hparts, ?_⟩
  rw [List.nil_append, instructions_joined hkept, List.filter_map]
  rfl

/-- The text of a file instruction inside an allowed one stays text. -/
theorem filterClient_instructions_clipboard :
    ∃ sent, instructions "9.clipboard,9.4.file,;✓;4.file,1.1;".toList = .ok sent ∧
      instructions "9.clipboard,9.4.file,;✓;".toList = .ok (sent.filter allowed) :=
  filterClient_instructions _ _ (by decide)

end BlakTail.Gateway
