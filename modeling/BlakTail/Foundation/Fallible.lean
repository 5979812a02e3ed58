import Mathlib

/-!
# Fallible Code

Inversion rules for code in `Except`: what a successful bind, guard or loop says
about its parts.
-/

namespace BlakTail.Foundation

variable {ε α β : Type} {e : ε} {u : Unit}

@[simp] theorem ok_bind (a : α) (rest : α → Except ε β) : (Except.ok a >>= rest) = rest a := rfl

@[simp] theorem error_bind (e : ε) (rest : α → Except ε β) :
    (Except.error e >>= rest) = .error e := rfl

/-- A bind succeeds exactly when both of its parts do. -/
theorem bind_ok_iff {rest : α → Except ε β} {first : Except ε α}
    {b : β} : (first >>= rest) = .ok b ↔ ∃ a, first = .ok a ∧ rest a = .ok b := by
  match first with
  | .ok a => exact ⟨fun h => ⟨a, rfl, h⟩, fun ⟨_, ha, h⟩ => Except.ok.inj ha ▸ h⟩
  | .error _ => exact ⟨fun h => (nomatch h), fun ⟨_, ha, _⟩ => (nomatch ha)⟩

/-- It fails with what its first part fails with, or its second. -/
theorem bind_error_iff {rest : α → Except ε β} {first : Except ε α} :
    (first >>= rest) = .error e ↔ first = .error e ∨ ∃ a, first = .ok a ∧ rest a = .error e := by
  cases first <;> simp

/-- Code behind a check succeeds exactly when the check passes and the code does. -/
theorem unless_ok_iff {bad : Prop} [Decidable bad] {rest : Except ε α} {a : α} :
    (if bad then .error e else rest) = .ok a ↔ ¬bad ∧ rest = .ok a := by
  by_cases h : bad
  · simp [h]
  · simp [h]

/-- Fail with `e` when `bad` holds. -/
def failIf (bad : Bool) (e : ε) : Except ε Unit := if bad then .error e else .ok ()

theorem failIf_eq_ok {bad : Bool} : failIf bad e = .ok u ↔ bad = false := by
  cases bad <;> simp [failIf]

theorem failIf_eq_error {bad : Bool} {e' : ε} : failIf bad e = .error e' ↔ bad ∧ e = e' := by
  cases bad <;> simp [failIf]

/-- Run `check` on every element, stopping at the first failure. -/
def checkAll (check : α → Except ε Unit) : List α → Except ε Unit
  | [] => .ok ()
  | a :: as => do check a; checkAll check as

theorem checkAll_eq_ok {check : α → Except ε Unit} {as : List α} :
    checkAll check as = .ok u ↔ ∀ a ∈ as, check a = .ok () := by
  induction as with
  | nil => simp [checkAll]
  | cons a as ih =>
    rw [checkAll, bind_ok_iff, List.forall_mem_cons, ← ih]
    exact ⟨fun ⟨_, ha, has⟩ => ⟨ha, has⟩, fun ⟨ha, has⟩ => ⟨(), ha, has⟩⟩

/-- Run checks one after the other, stopping at the first failure. -/
def allOk (checks : List (Except ε Unit)) : Except ε Unit := checkAll id checks

theorem allOk_eq_ok {checks : List (Except ε Unit)} :
    allOk checks = .ok u ↔ ∀ check ∈ checks, check = .ok () :=
  checkAll_eq_ok

end BlakTail.Foundation
