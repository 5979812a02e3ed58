import Mathlib

/-!
# Values That Change at Announced Times

A value that depends on a clock is `f : τ → β`, with `τ` linearly ordered.  An observer who read it
at `l` keeps the reading and a list of times at which it may change.  `SteadyUntil times f l` says
that the list is complete: the reading is right until the first of the times.
-/

namespace BlakTail.Foundation

variable {τ : Type} [LinearOrder τ] {α β γ : Type} {times : List τ} {f : τ → β} {l u : τ}
/-- From `l` on, `f` keeps its value before the first of `times`. -/
def SteadyUntil (times : List τ) (f : τ → β) (l : τ) : Prop :=
  ∀ u, l ≤ u → (∀ t ∈ times, u < t) → f u = f l

/-- More times announce more changes. -/
theorem SteadyUntil.mono {more : List τ} (hf : SteadyUntil times f l) (hsub : times ⊆ more) :
    SteadyUntil more f l :=
  fun u hlu hu => hf u hlu fun t ht => hu t (hsub ht)

theorem SteadyUntil.comp (hf : SteadyUntil times f l) (g : β → γ) :
    SteadyUntil times (fun u => g (f u)) l :=
  fun u hlu hu => congrArg g (hf u hlu hu)

/-- A selection is steady where the test of each element is. -/
theorem SteadyUntil.filter {as : List α} {p : α → τ → Bool}
    (hp : ∀ a ∈ as, SteadyUntil times (p a) l) :
    SteadyUntil times (fun u => as.filter fun a => p a u) l :=
  fun u hlu hu => List.filter_congr fun a ha => hp a ha u hlu hu

/-- A limit changes when it is announced, and not once it has passed. -/
theorem steadyUntil_le {x : τ} (h : x ∈ times ∨ x < l) :
    SteadyUntil times (fun u => decide (u ≤ x)) l := by
  intro u hlu hu
  rcases h with hmem | hpast
  · have hux : u ≤ x := le_of_lt (hu x hmem)
    simp [hux, le_trans hlu hux]
  · have hux : x < u := lt_of_lt_of_le hpast hlu
    simp [not_le.mpr hpast, not_le.mpr hux]

/-- What lies before the earliest time lies before all of them. -/
theorem lt_of_lt_min [Std.LawfulOrderMin τ] {t : τ} (hmin : ∀ d, times.min? = some d → u < d)
    (ht : t ∈ times) :
    u < t := by
  obtain ⟨d, hd⟩ := Option.isSome_iff_exists.mp (List.isSome_min?_of_mem ht)
  exact lt_of_lt_of_le (hmin d hd) ((List.min?_eq_some_iff.mp hd).2 t ht)

/-- The earliest time is all an observer has to keep. -/
theorem SteadyUntil.before_min [Std.LawfulOrderMin τ] (hf : SteadyUntil times f l) (hlu : l ≤ u)
    (hmin : ∀ d, times.min? = some d → u < d) : f u = f l :=
  hf u hlu fun _ ht => lt_of_lt_min hmin ht

end BlakTail.Foundation
