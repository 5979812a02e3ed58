import Mathlib

/-!
# Runs of a Step Function

A component with state `σ` that accepts inputs `α` is a function
`step : σ → α → σ`; a disabled input is one that leaves the state alone.  A run
is a list of inputs, and every prefix of a run is a run, so a statement about
the end of every run is a statement about every state reached.
-/

namespace BlakTail.Foundation

variable {σ α : Type} (step : σ → α → σ) {C : σ → α → Prop} {s : σ} {as : List α} {Inv : σ → Prop}

/-- The state after the inputs `as`, starting in `s`. -/
def run (s : σ) (as : List α) : σ := as.foldl step s

@[simp] theorem run_nil (s : σ) : run step s [] = s := rfl

@[simp] theorem run_cons (s : σ) (a : α) (as : List α) :
    run step s (a :: as) = run step (step s a) as := rfl

theorem run_append (s : σ) (as bs : List α) :
    run step s (as ++ bs) = run step (run step s as) bs :=
  List.foldl_append

/-- Every input of the run meets `C` in the state it is given to. -/
def Along (C : σ → α → Prop) : σ → List α → Prop
  | _, [] => True
  | s, a :: as => C s a ∧ Along C (step s a) as

instance Along.decidable {C : σ → α → Prop} [∀ s a, Decidable (C s a)] :
    ∀ (s : σ) (as : List α), Decidable (Along step C s as)
  | _, [] => isTrue trivial
  | s, a :: as =>
    have := Along.decidable (C := C) (step s a) as
    inferInstanceAs (Decidable (C s a ∧ Along step C (step s a) as))

variable {step}

theorem along_append {bs : List α} :
    Along step C s (as ++ bs) ↔ Along step C s as ∧ Along step C (run step s as) bs := by
  induction as generalizing s with
  | nil => exact ⟨fun h => ⟨trivial, h⟩, fun h => h.2⟩
  | cons a as ih =>
    rw [List.cons_append, Along, ih, Along, run_cons, and_assoc]

/-- The invariant rule for runs whose inputs meet a condition in the state they are given to. -/
theorem run_invariant_along (hstep : ∀ s a, C s a → Inv s → Inv (step s a))
    (halong : Along step C s as) (hs : Inv s) : Inv (run step s as) := by
  induction as generalizing s with
  | nil => exact hs
  | cons a as ih => exact ih halong.2 (hstep s a halong.1 hs)

/-- The invariant rule for runs whose inputs all meet a condition. -/
theorem run_invariant_all {C : α → Prop} (hstep : ∀ s a, C a → Inv s → Inv (step s a))
    (hall : ∀ a ∈ as, C a) (hs : Inv s) : Inv (run step s as) := by
  induction as generalizing s with
  | nil => exact hs
  | cons a as ih =>
    obtain ⟨ha, has⟩ := List.forall_mem_cons.mp hall
    exact ih has (hstep s a ha hs)

/-- What every step preserves holds at the end of every run. -/
theorem run_invariant (hstep : ∀ s a, Inv s → Inv (step s a)) (as : List α) (hs : Inv s) :
    Inv (run step s as) := by
  induction as generalizing s with
  | nil => exact hs
  | cons a as ih => exact ih (hstep s a hs)

/-- Where a step adds what its input brings, a run adds what some input brings. -/
theorem foldl_adds {P : σ → Prop} {Q : α → Prop} (hadd : ∀ s a, P (step s a) ↔ P s ∨ Q a)
    (as : List α) (s : σ) : P (as.foldl step s) ↔ P s ∨ ∃ a ∈ as, Q a := by
  induction as generalizing s with
  | nil => simp
  | cons a as ih =>
    rw [List.foldl_cons, ih, hadd, or_assoc]
    simp

/-- A flag that some inputs raise does not depend on their order. -/
theorem foldl_flag_eq {F : σ → Bool} {Q : α → Prop}
    (hadd : ∀ s a, F (step s a) ↔ F s ∨ Q a) {as bs : List α}
    (hmem : ∀ a, a ∈ as ↔ a ∈ bs) (s : σ) : F (as.foldl step s) = F (bs.foldl step s) := by
  rw [Bool.eq_iff_iff, foldl_adds (P := fun s => F s) hadd,
    foldl_adds (P := fun s => F s) hadd]
  simp only [hmem]

end BlakTail.Foundation
