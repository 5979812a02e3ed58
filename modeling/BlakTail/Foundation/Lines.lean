import BlakTail.Foundation.Text

/-!
# Lines and Words

Line-oriented configuration text: written as lines of words, read back by splitting.
A line is read back when no line holds a line break, and a word when it is not empty
and holds no blank.
-/

namespace BlakTail.Foundation.Text

/-- Every line with its line break. -/
def unlines : List String → String
  | [] => ""
  | line :: rest => line ++ "\n" ++ unlines rest

/-- The parts between occurrences of a character. -/
def fields (sep : Char) (s : String) : List String := (s.toList.splitOn sep).map String.ofList

/-- The parts between line breaks. -/
def lines (s : String) : List String := fields '\n' s

/-- The parts between blanks, without the empty ones. -/
def words (s : String) : List String := (fields ' ' s).filter fun word => word ≠ ""

/-! ## Reading back -/

variable {sep : Char}

theorem fields_append {front : String} (h : sep ∉ front.toList) (rest : String) :
    fields sep (front ++ String.singleton sep ++ rest) = front :: fields sep rest := by
  have hfront : ∀ c ∈ front.toList, (c == sep) = false := fun c hc =>
    beq_false_of_ne fun heq => h (heq ▸ hc)
  have hsplit := List.splitOnP_append_cons_of_forall_mem hfront sep (beq_self_eq_true sep)
    rest.toList
  unfold fields List.splitOn
  simpa using congrArg (List.map String.ofList) hsplit

theorem fields_self {s : String} (h : sep ∉ s.toList) : fields sep s = [s] := by
  unfold fields
  rw [List.splitOn_eq_singleton h]
  simp

/-- What was joined with a separator is read back. -/
theorem fields_join {parts : List String} (hne : parts ≠ [])
    (hsep : ∀ part ∈ parts, sep ∉ part.toList) :
    fields sep (join (String.singleton sep) parts) = parts := by
  induction parts with
  | nil => exact absurd rfl hne
  | cons part rest ih =>
    have hpart := hsep part List.mem_cons_self
    cases rest with
    | nil => exact fields_self hpart
    | cons next rest =>
      rw [join, fields_append hpart, ih (List.cons_ne_nil next rest) fun p hp =>
        hsep p (List.mem_cons_of_mem part hp)]
      exact List.cons_ne_nil next rest

theorem lines_unlines {ls : List String} (h : ∀ line ∈ ls, '\n' ∉ line.toList) :
    lines (unlines ls) = ls ++ [""] := by
  induction ls with
  | nil => rfl
  | cons line rest ih =>
    have hrest := ih fun l hl => h l (List.mem_cons_of_mem line hl)
    rw [List.cons_append, ← hrest]
    exact fields_append (h line List.mem_cons_self) (unlines rest)

/-- A word in front of the others. -/
theorem words_cons {word : String}
    (hword : word ≠ "") (hblank : ' ' ∉ word.toList) (rest : String) :
    words (word ++ " " ++ rest) = word :: words rest := by
  unfold words
  rw [show word ++ " " ++ rest = word ++ String.singleton ' ' ++ rest from rfl,
    fields_append hblank]
  simp [hword]

theorem words_blank (rest : String) : words (" " ++ rest) = words rest := by
  have hfront : ' ' ∉ ("" : String).toList := by decide
  unfold words
  rw [show " " ++ rest = "" ++ String.singleton ' ' ++ rest from rfl,
    fields_append hfront]
  simp

theorem words_self {word : String}
    (hword : word ≠ "") (hblank : ' ' ∉ word.toList) : words word = [word] := by
  simp [words, fields_self hblank, hword]

theorem words_join {names : List String}
    (hnames : ∀ name ∈ names, name ≠ "" ∧ ' ' ∉ name.toList) : words (join " " names) = names := by
  cases names with
  | nil => rfl
  | cons name rest =>
    unfold words
    rw [show (" " : String) = String.singleton ' ' from rfl,
      fields_join (List.cons_ne_nil name rest) fun n hn => (hnames n hn).2]
    exact List.filter_eq_self.mpr fun n hn => by simpa using (hnames n hn).1

end BlakTail.Foundation.Text
