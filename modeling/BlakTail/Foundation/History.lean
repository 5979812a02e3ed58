import BlakTail.Foundation.Run

/-!
# What Happened Before

Statements about the past of a run.  Splits of the inputs, `before ++ a :: after`, stand for the
moments of the run.
-/

namespace BlakTail.Foundation

variable {σ α : Type} {step : σ → α → σ}

@[simp] theorem run_snoc (s : σ) (as : List α) (a : α) :
    run step s (as ++ [a]) = step (run step s as) a := by
  rw [run_append, run_cons, run_nil]

/-- What one more input carries from the past so far to the longer past holds of every run. -/
theorem run_history {P : List α → σ → Prop} {s : σ} (hstart : P [] s)
    (hstep : ∀ past a, P past (run step s past) → P (past ++ [a]) (step (run step s past) a))
    (as : List α) : P as (run step s as) := by
  induction as using List.reverseRecOn with
  | nil => exact hstart
  | append_singleton past a ih =>
    rw [run_snoc]
    exact hstep past a ih

/-- A moment of a run that is one input longer is the last one or a moment of the run before. -/
theorem snoc_eq_split_iff {as : List α} {a : α} {before after : List α} {b : α} :
    as ++ [a] = before ++ b :: after ↔
      (before = as ∧ b = a ∧ after = []) ∨ ∃ rest, after = rest ++ [a] ∧
        as = before ++ b :: rest := by
  constructor
  · intro h
    rcases List.eq_nil_or_concat' after with rfl | ⟨rest, last, rfl⟩
    · obtain ⟨rfl, hlast⟩ := List.append_inj' h rfl
      exact .inl ⟨rfl, (List.singleton_inj.mp hlast).symm, rfl⟩
    · rw [← List.cons_append, ← List.append_assoc] at h
      obtain ⟨rfl, hlast⟩ := List.append_inj' h rfl
      obtain rfl := List.singleton_inj.mp hlast
      exact .inr ⟨rest, rfl, rfl⟩
  · rintro (⟨rfl, rfl, rfl⟩ | ⟨rest, rfl, rfl⟩)
    · rfl
    · rw [List.append_assoc, List.cons_append]

variable (step) in
/-- Some input of the run met `start`, and every input after it met `quiet`. -/
def Since (start quiet : σ → α → Prop) (s : σ) (as : List α) : Prop :=
  ∃ before a after, as = before ++ a :: after ∧ start (run step s before) a ∧
    Along step quiet (run step s (before ++ [a])) after

theorem not_since_nil {start quiet : σ → α → Prop} {s : σ} : ¬Since step start quiet s [] := by
  rintro ⟨before, a, after, h, -⟩
  exact absurd h.symm (List.append_ne_nil_of_right_ne_nil before (List.cons_ne_nil a after))

theorem since_snoc_iff {as : List α} {a : α} {start quiet : σ → α → Prop} {s : σ} :
    Since step start quiet s (as ++ [a]) ↔
      start (run step s as) a ∨ Since step start quiet s as ∧ quiet (run step s as) a := by
  constructor
  · rintro ⟨before, b, after, h, hstart, hquiet⟩
    rcases snoc_eq_split_iff.mp h with ⟨rfl, rfl, rfl⟩ | ⟨rest, rfl, rfl⟩
    · exact .inl hstart
    · obtain ⟨hrest, hlast⟩ := along_append.mp hquiet
      refine .inr ⟨⟨before, b, rest, rfl, hstart, hrest⟩, ?_⟩
      rw [← run_append, List.append_assoc, List.singleton_append] at hlast
      exact hlast.1
  · rintro (hstart | ⟨⟨before, b, rest, rfl, hstart, hrest⟩, hlast⟩)
    · exact ⟨as, a, [], rfl, hstart, trivial⟩
    · refine ⟨before, b, rest ++ [a], by simp, hstart, along_append.mpr ⟨hrest, ?_, trivial⟩⟩
      rw [← run_append, List.append_assoc, List.singleton_append]
      exact hlast

/-! ## What a run puts out -/

variable {β : Type} {out : σ → α → List β}

variable (step out) in
/-- What the inputs of a run put out, in order. -/
def outputs : σ → List α → List β
  | _, [] => []
  | s, a :: as => out s a ++ outputs (step s a) as

/-- What one input carries from the outputs so far to the longer ones holds of every run. -/
theorem run_outputs {P : List β → σ → Prop}
    (hstep : ∀ past s a, P past s → P (past ++ out s a) (step s a)) {past : List β} {s : σ}
    (h : P past s) (as : List α) : P (past ++ outputs step out s as) (run step s as) := by
  induction as generalizing past s with
  | nil =>
    rw [outputs, List.append_nil]
    exact h
  | cons a as ih =>
    rw [outputs, ← List.append_assoc]
    exact ih (hstep past s a h)

end BlakTail.Foundation
