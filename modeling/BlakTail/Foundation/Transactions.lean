import Mathlib

/-!
# Rows Under Transactions

A table of rows is changed by transactions that run side by side.  What a transaction writes
is kept apart until it commits; a statement of it reads the committed rows through its own
writes, and a row that an open transaction wrote is locked against the others.
-/

namespace BlakTail.Foundation.Transactions

variable {κ ν : Type} [DecidableEq κ]

/-- The committed rows. -/
abbrev Rows (κ ν : Type) := κ → Option ν

/-- What a transaction wrote: a row, or that there is none. -/
abbrev Writes (κ ν : Type) := κ → Option (Option ν)

/-- The rows as a transaction sees them, and the rows once it has committed. -/
def view (rows : Rows κ ν) (writes : Writes κ ν) : Rows κ ν := fun k => (writes k).getD (rows k)

def write (writes : Writes κ ν) (k : κ) (row : Option ν) : Writes κ ν :=
  Function.update writes k (some row)

/-- No row is written by both. -/
def Apart (w w' : Writes κ ν) : Prop := ∀ k, w k = none ∨ w' k = none

omit [DecidableEq κ] in
theorem Apart.symm {w w' : Writes κ ν} (h : Apart w w') : Apart w' w := fun k => (h k).symm

omit [DecidableEq κ] in
theorem view_of_unwritten {rows : Rows κ ν} {writes : Writes κ ν} {k : κ} (h : writes k = none) :
    view rows writes k = rows k := by
  rw [view, h, Option.getD_none]

omit [DecidableEq κ] in
theorem view_of_written {rows : Rows κ ν} {writes : Writes κ ν} {k : κ} {row : Option ν}
    (h : writes k = some row) : view rows writes k = row := by
  rw [view, h, Option.getD_some]

theorem view_write (rows : Rows κ ν) (writes : Writes κ ν) (k k' : κ) (row : Option ν) :
    view rows (write writes k row) k' = if k' = k then row else view rows writes k' := by
  unfold view write
  by_cases h : k' = k
  · subst h
    simp
  · simp [h]

theorem write_apply (writes : Writes κ ν) (k k' : κ) (row : Option ν) :
    write writes k row k' = if k' = k then some row else writes k' := by
  unfold write
  by_cases h : k' = k
  · subst h
    simp
  · simp [h]

/-- Writing a row the other transaction has not written keeps two transactions apart. -/
theorem Apart.write {w w' : Writes κ ν} (h : Apart w w') {k : κ} (hk : w' k = none)
    (row : Option ν) : Apart (Transactions.write w k row) w' := by
  intro k'
  by_cases heq : k' = k
  · rw [heq]
    exact .inr hk
  · rw [write_apply, if_neg heq]
    exact h k'

end BlakTail.Foundation.Transactions
