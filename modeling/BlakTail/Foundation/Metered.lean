import BlakTail.Foundation.Run

/-!
# Metered Runs

A component whose steps cost something and that keeps a level, paid down by every cost and refilled
at some rate up to a cap.  In every window of time the costs are at most the cap and what the window
refills.
-/

namespace BlakTail.Foundation

variable {σ α : Type} (step : σ → α → σ) (time : α → Nat) (cost : σ → α → Nat) {start stop : Nat}

/-- The costs of the inputs that arrive between `start` and `stop`. -/
def spent (start stop : Nat) : σ → List α → Nat
  | _, [] => 0
  | s, a :: as =>
    (if start ≤ time a ∧ time a ≤ stop then cost s a else 0) + spent start stop (step s a) as

/-- Each input arrives no earlier than the one before it. -/
def InOrder : List α → Prop := List.Pairwise fun a b => time a ≤ time b

/-- In every state that keeps `Inv` the level pays for a step, between refills of at most `rate`
for each unit of time. -/
structure Meter (Inv : σ → Prop) (level : σ → Nat → ℚ) (rate cap : ℚ) : Prop where
  rate_nonneg : 0 ≤ rate
  keeps : ∀ s a, Inv s → Inv (step s a)
  nonneg : ∀ s t, Inv s → 0 ≤ level s t
  capped : ∀ s t, Inv s → level s t ≤ cap
  refills : ∀ s t t', Inv s → t ≤ t' → level s t' ≤ level s t + rate * (t' - t)
  pays : ∀ s a, Inv s → cost s a + level (step s a) (time a) ≤ level s (time a)

variable {step time cost}

theorem spent_append (s : σ) (as bs : List α) :
    spent step time cost start stop s (as ++ bs) = spent step time cost start stop s as +
      spent step time cost start stop (run step s as) bs := by
  induction as generalizing s with
  | nil => rw [spent, Nat.zero_add, List.nil_append, run_nil]
  | cons a as ih => rw [List.cons_append, spent, spent, ih, run_cons, Nat.add_assoc]

/-- Nothing is spent after the window. -/
theorem spent_after {as : List α} (hlate : ∀ a ∈ as, stop < time a) (s : σ) :
    spent step time cost start stop s as = 0 := by
  induction as generalizing s with
  | nil => rfl
  | cons a as ih =>
    obtain ⟨ha, has⟩ := List.forall_mem_cons.mp hlate
    rw [spent, if_neg (fun h => absurd h.2 (Nat.not_le.mpr ha)), ih has]

namespace Meter

variable {Inv : σ → Prop} {level : σ → Nat → ℚ} {rate cap : ℚ} {t : Nat} {s : σ}

theorem room_nonneg (h : Meter step time cost Inv level rate cap) (ht : t ≤ stop) (hs : Inv s) :
    0 ≤ level s t + rate * ((stop : ℚ) - t) := by
  have hspan : (0 : ℚ) ≤ (stop : ℚ) - t := sub_nonneg.mpr (Nat.cast_le.mpr ht)
  exact add_nonneg (h.nonneg s t hs) (mul_nonneg h.rate_nonneg hspan)

/-- Within the window, what is spent is paid by the level at some moment before and by the
refills since. -/
theorem spent_le_level {as : List α}
    (h : Meter step time cost Inv level rate cap) (horder : InOrder time as)
    (hearly : ∀ a ∈ as, t ≤ time a) (ht : t ≤ stop) (hs : Inv s) :
    (spent step time cost start stop s as : ℚ) ≤ level s t + rate * (stop - t) := by
  induction as generalizing s t with
  | nil =>
    exact h.room_nonneg ht hs
  | cons a as ih =>
    obtain ⟨hlater, horder'⟩ := List.pairwise_cons.mp horder
    have hta : t ≤ time a := hearly a List.mem_cons_self
    have hrefill := h.refills s t (time a) hs hta
    have hpays := h.pays s a hs
    rcases Nat.lt_or_ge stop (time a) with hstop | hstop
    · -- the window is over
      rw [spent_after]
      · exact h.room_nonneg ht hs
      · intro b hb
        rcases List.mem_cons.mp hb with rfl | hb
        · exact hstop
        · exact lt_of_lt_of_le hstop (hlater b hb)
    · have hrest := ih horder' hlater hstop (h.keeps s a hs)
      have hcost : (((if start ≤ time a ∧ time a ≤ stop then cost s a else 0 : Nat)) : ℚ) ≤
          cost s a := by
        split_ifs
        · exact le_refl _
        · exact_mod_cast Nat.zero_le _
      rw [spent, Nat.cast_add]
      calc _ ≤ (cost s a : ℚ) + (level (step s a) (time a) + rate * (stop - time a)) :=
            add_le_add hcost hrest
        _ ≤ level s (time a) + rate * (stop - time a) := by linarith
        _ ≤ level s t + rate * (time a - t) + rate * (stop - time a) := by linarith
        _ = level s t + rate * (stop - t) := by ring

/-- In every window the costs are at most the cap and what the window refills. -/
theorem spent_le {as : List α}
    (h : Meter step time cost Inv level rate cap) (horder : InOrder time as)
    (hwindow : start ≤ stop) (hs : Inv s) :
    (spent step time cost start stop s as : ℚ) ≤ cap + rate * (stop - start) := by
  -- once the window has begun, the level at its start pays
  have hbegun : ∀ (as : List α) (s : σ), InOrder time as → (∀ a ∈ as, start ≤ time a) → Inv s →
      (spent step time cost start stop s as : ℚ) ≤ cap + rate * (stop - start) := by
    intro as s horder hearly hs
    have hlevel : (spent step time cost start stop s as : ℚ) ≤ _ :=
      h.spent_le_level horder hearly hwindow hs
    have hcap := h.capped s start hs
    linarith
  induction as generalizing s with
  | nil => exact hbegun [] s horder (nofun) hs
  | cons a as ih =>
    obtain ⟨hlater, horder'⟩ := List.pairwise_cons.mp horder
    rcases Nat.lt_or_ge (time a) start with hbefore | hin
    · rw [spent, if_neg (fun h => absurd h.1 (Nat.not_le.mpr hbefore)), Nat.zero_add]
      exact ih horder' (h.keeps s a hs)
    · refine hbegun (a :: as) s horder (fun b hb => ?_) hs
      rcases List.mem_cons.mp hb with rfl | hb
      · exact hin
      · exact hin.trans (hlater b hb)

end Meter

end BlakTail.Foundation
