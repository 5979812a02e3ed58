import BlakTail.Foundation.Table
import BlakTail.Relay.Ladder

/-!
# Relay Choice

Every client walks the coordinator's list in the same order and uses the first relay that is not
cooling down after a failure.
-/

namespace BlakTail.Relay

open Foundation

def BASE_COOLDOWN : Nat := secs 30
def MAX_COOLDOWN : Nat := secs 600

structure Failure where
  strikes : Nat
  retryAt : Nat
  deriving DecidableEq

structure Selector (κ : Type) where
  failures : Table κ Failure := ∅
  failovers : Nat := 0
  failbacks : Nat := 0

/-- `min_by_key`: the first of the least, where no key is less than any. -/
def minByKey {α : Type} (key : α → Option Nat) : List α → Option α
  | [] => none
  | a :: as =>
    match minByKey key as with
    | none => some a
    | some b =>
      match key a, key b with
      | some i, some j => if i ≤ j then some a else some b
      | some _, none => some b
      | none, _ => some a

theorem mem_of_minByKey {α : Type} {key : α → Option Nat} {as : List α} {a : α}
    (h : minByKey key as = some a) : a ∈ as := by
  induction as with
  | nil => cases h
  | cons first as ih =>
    unfold minByKey at h
    split at h
    · cases h
      exact List.mem_cons_self
    · next b hb =>
      have hcases : a = first ∨ a = b := by
        split at h
        · split_ifs at h
          · exact .inl (Option.some.inj h).symm
          · exact .inr (Option.some.inj h).symm
        · exact .inr (Option.some.inj h).symm
        · exact .inl (Option.some.inj h).symm
      rcases hcases with rfl | rfl
      · exact List.mem_cons_self
      · exact List.mem_cons_of_mem _ (ih hb)

namespace Selector

variable {κ : Type} [DecidableEq κ] (selector : Selector κ)

def cooling (relay : κ) (now : Nat) : Bool :=
  (selector.failures.lookup relay).any fun failure => now < failure.retryAt

/-- The relay to use. -/
def choose (candidates : List κ) (now : Nat) : Option κ :=
  (candidates.find? fun relay => !selector.cooling relay now).or
    (minByKey (fun relay => (selector.failures.lookup relay).map Failure.retryAt) candidates)

/-- The back-off doubles with every strike, up to a limit. -/
def cooldown (strikes : Nat) : Nat := min (BASE_COOLDOWN * 2 ^ min (strikes - 1) 10) MAX_COOLDOWN

def recordFailure (relay : κ) (now : Nat) : Selector κ :=
  let strikes := ((selector.failures.lookup relay).map fun failure =>
    saturatingSucc failure.strikes).getD 1
  { selector with failures := selector.failures.insert relay ⟨strikes, now + cooldown strikes⟩ }

def recordHealthy (relay : κ) : Selector κ :=
  { selector with failures := selector.failures.erase relay }

/-- A relay of higher priority whose back-off has ended. -/
def failbackTarget (active : κ) (candidates : List κ) (now : Nat) : Option κ :=
  (candidates.takeWhile (· ≠ active)).find? fun relay => !selector.cooling relay now

def noteFailover : Selector κ := { selector with failovers := selector.failovers + 1 }

def noteFailback : Selector κ := { selector with failbacks := selector.failbacks + 1 }

variable {selector}

theorem mem_of_choose {now : Nat} {relay : κ} {candidates : List κ}
    (h : selector.choose candidates now = some relay) : relay ∈ candidates := by
  unfold choose at h
  cases hfind : candidates.find? fun relay => !selector.cooling relay now with
  | some found =>
    rw [hfind] at h
    cases h
    exact List.mem_of_find?_eq_some hfind
  | none =>
    rw [hfind] at h
    exact mem_of_minByKey h

/-- Fail-back goes to a relay before the active one. -/
theorem mem_of_failbackTarget {now : Nat} {relay : κ} {candidates : List κ} {active : κ}
    (h : selector.failbackTarget active candidates now = some relay) :
    relay ∈ candidates.takeWhile (· ≠ active) :=
  List.mem_of_find?_eq_some h

end Selector

end BlakTail.Relay
