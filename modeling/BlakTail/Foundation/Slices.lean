import BlakTail.Foundation.Text

/-!
# Byte Positions in Text

A `str` is its list of characters, but its positions count UTF-8 bytes, and a slice at a
position inside a character panics.
-/

namespace BlakTail.Foundation.Text

/-- Length of characters in UTF-8 bytes. -/
def bytes (cs : List Char) : Nat := (cs.map Char.utf8Size).sum

/-- `(&s[..n], &s[n..])`, or `none` where the slices panic. -/
def splitBytes : List Char → Nat → Option (List Char × List Char)
  | cs, 0 => some ([], cs)
  | [], _ + 1 => none
  | c :: cs, n + 1 =>
    if n + 1 < c.utf8Size then none
    else (splitBytes cs (n + 1 - c.utf8Size)).map fun (front, rest) => (c :: front, rest)

@[simp] theorem bytes_nil : bytes [] = 0 := rfl

@[simp] theorem bytes_cons (c : Char) (cs : List Char) : bytes (c :: cs) = c.utf8Size + bytes cs :=
  List.sum_cons

@[simp] theorem bytes_append (cs ds : List Char) : bytes (cs ++ ds) = bytes cs + bytes ds := by
  simp [bytes]

theorem bytes_pos {cs : List Char} (hne : cs ≠ []) : 0 < bytes cs := by
  cases cs with
  | nil => exact absurd rfl hne
  | cons c cs =>
    exact Nat.add_pos_left c.utf8Size_pos _

/-- The end of a known part is between characters. -/
theorem splitBytes_append (front rest : List Char) :
    splitBytes (front ++ rest) (bytes front) = some (front, rest) := by
  induction front with
  | nil => cases rest <;> rfl
  | cons c front ih =>
    obtain ⟨n, hn⟩ : ∃ n, bytes (c :: front) = n + 1 :=
      ⟨_, (Nat.succ_pred_eq_of_pos (bytes_pos (List.cons_ne_nil c front))).symm⟩
    have hsize : ¬ n + 1 < c.utf8Size := by
      rw [← hn, bytes_cons]
      omega
    have hrest : n + 1 - c.utf8Size = bytes front := by
      rw [← hn, bytes_cons]
      omega
    rw [hn, List.cons_append, splitBytes, if_neg hsize, hrest, ih]
    rfl

end BlakTail.Foundation.Text
