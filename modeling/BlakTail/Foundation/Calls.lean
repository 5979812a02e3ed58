import Mathlib

/-!
# Programs That Make Calls

A program over calls `C` with answers `A` either is done or makes a call and goes on with
the answer.  A system with state `σ` answers calls one after another and may change with
each.  What a program does to the system, and what it learns from it, is the list of its
calls, each with the state it was made in.
-/

namespace BlakTail.Foundation

/-- A program over calls `C` with answers `A`. -/
inductive Prog (C : Type) (A : C → Type) (α : Type) where
  | done (result : α)
  | call (c : C) (next : A c → Prog C A α)

namespace Prog

variable {C : Type} {A : C → Type} {α β : Type} {P : C → Prop}

def bind (p : Prog C A α) (f : α → Prog C A β) : Prog C A β :=
  match p with
  | done result => f result
  | call c next => call c fun answer => (next answer).bind f

instance : Monad (Prog C A) where
  pure := done
  bind := bind

def ask (c : C) : Prog C A (A c) := call c done

/-- Run a program for each element, in order. -/
def each (f : α → Prog C A β) : List α → Prog C A (List β)
  | [] => done []
  | a :: as => do
    let b ← f a
    let bs ← each f as
    return b :: bs

/-- Every call the program can make meets `P`, whatever it is answered. -/
inductive Only (P : C → Prop) : Prog C A α → Prop where
  | done (result : α) : Only P (.done result)
  | call {c : C} {next : A c → Prog C A α} (hc : P c) (hnext : ∀ answer, Only P (next answer)) :
      Only P (.call c next)

theorem only_pure (a : α) : (pure a : Prog C A α).Only P := .done a

theorem only_ask {c : C} (hc : P c) : (ask c : Prog C A (A c)).Only P :=
  .call hc fun answer => .done answer

theorem Only.bind {p : Prog C A α} {f : α → Prog C A β}
    (hp : p.Only P) (hf : ∀ a, (f a).Only P) : (p >>= f).Only P := by
  show (p.bind f).Only P
  induction hp with
  | done result => exact hf result
  | call hc hnext ih => exact .call hc ih

theorem only_ite {p : Prog C A α}
    {c : Prop} [Decidable c] {q : Prog C A α} (hp : p.Only P) (hq : q.Only P) :
    (if c then p else q).Only P := by
  split
  · exact hp
  · exact hq

/-! ## Execution -/

section Execution

variable {σ : Type} (answer : σ → (c : C) → A c × σ) {ok : σ → C → Prop} {P : C → Prop}
  {p : Prog C A α} {Inv : σ → Prop} {Q : α → σ → Prop} {s : σ} {f : α → Prog C A β}

/-- The result of a program and the state it leaves. -/
def exec : Prog C A α → σ → α × σ
  | done result, s => (result, s)
  | call c next, s => exec (next (answer s c).1) (answer s c).2

/-- The calls of a program, each with the state it is made in. -/
def calls : Prog C A α → σ → List (σ × C)
  | done _, _ => []
  | call c next, s => (s, c) :: calls (next (answer s c).1) (answer s c).2

/-- Every call meets `ok` in the state it is made in. -/
def Throughout (ok : σ → C → Prop) (p : Prog C A α) (s : σ) : Prop :=
  ∀ made ∈ p.calls answer s, ok made.1 made.2

/-- The program leaves every state as it is. -/
def Quiet (p : Prog C A α) : Prop := ∀ s, (p.exec answer s).2 = s

variable {answer}

@[simp] theorem exec_pure (a : α) (s : σ) : (pure a : Prog C A α).exec answer s = (a, s) := rfl

@[simp] theorem exec_bind (p : Prog C A α) (f : α → Prog C A β) (s : σ) :
    (p >>= f).exec answer s = (f (p.exec answer s).1).exec answer (p.exec answer s).2 := by
  show (p.bind f).exec answer s = _
  induction p generalizing s with
  | done result => rfl
  | call c next ih => exact ih _ _

/-- The calls of a sequence are those of the first part, then those of the second. -/
theorem calls_bind (p : Prog C A α) (f : α → Prog C A β) (s : σ) :
    (p >>= f).calls answer s =
      p.calls answer s ++ (f (p.exec answer s).1).calls answer (p.exec answer s).2 := by
  show (p.bind f).calls answer s = _
  induction p generalizing s with
  | done result => rfl
  | call c next ih => exact congrArg (List.cons (s, c)) (ih _ _)

@[simp] theorem throughout_pure (a : α) (s : σ) :
    (pure a : Prog C A α).Throughout answer ok s ↔ True :=
  iff_of_true (nofun) trivial

@[simp] theorem throughout_ask (c : C) (s : σ) :
    (ask c : Prog C A (A c)).Throughout answer ok s ↔ ok s c := by
  show (∀ made ∈ [(s, c)], ok made.1 made.2) ↔ ok s c
  simp

@[simp] theorem throughout_bind (p : Prog C A α) (f : α → Prog C A β) (s : σ) :
    (p >>= f).Throughout answer ok s ↔ p.Throughout answer ok s ∧
      (f (p.exec answer s).1).Throughout answer ok (p.exec answer s).2 := by
  unfold Throughout
  rw [calls_bind]
  simp only [List.mem_append, or_imp, forall_and]

@[simp] theorem throughout_ite {c : Prop} [Decidable c] (p q : Prog C A α) (s : σ) :
    (if c then p else q).Throughout answer ok s ↔
      if c then p.Throughout answer ok s else q.Throughout answer ok s := by
  split
  · exact Iff.rfl
  · exact Iff.rfl

/-- Where calls of a sort meet a condition in every state, programs of such calls do. -/
theorem Only.throughout (hp : p.Only P) (hok : ∀ s c, P c → ok s c) (s : σ) :
    p.Throughout answer ok s := by
  induction hp generalizing s with
  | done result => exact nofun
  | call hc hnext ih => exact List.forall_mem_cons.mpr ⟨hok s _ hc, ih _ _⟩

/-! ## Invariants and postconditions -/

variable (answer) in
/-- Every call is made in a state that keeps `Inv`, and the program ends in `Q`. -/
def Under (Inv : σ → Prop) (Q : α → σ → Prop) (p : Prog C A α) (s : σ) : Prop :=
  p.Throughout answer (fun s _ => Inv s) s ∧ Q (p.exec answer s).1 (p.exec answer s).2

theorem under_pure {a : α} (h : Q a s) : (pure a : Prog C A α).Under answer Inv Q s :=
  ⟨(throughout_pure a s).mpr trivial, h⟩

/-- One program after another: what the first ends in starts the second. -/
theorem Under.bind {R : β → σ → Prop} (hp : p.Under answer Inv Q s)
    (hf : ∀ a s, Q a s → (f a).Under answer Inv R s) : (p >>= f).Under answer Inv R s := by
  obtain ⟨hthroughout, hrest⟩ := hf _ _ hp.2
  refine ⟨(throughout_bind p f s).mpr ⟨hp.1, hthroughout⟩, ?_⟩
  rw [exec_bind]
  exact hrest

/-- A loop keeps what each round keeps. -/
theorem under_each {P : σ → Prop} {as : List α}
    (hround : ∀ a ∈ as, ∀ s, P s → (f a).Under answer Inv (fun _ s => P s) s) (hs : P s) :
    (each f as).Under answer Inv (fun _ s => P s) s := by
  induction as generalizing s with
  | nil => exact under_pure hs
  | cons a as ih =>
    obtain ⟨ha, has⟩ := List.forall_mem_cons.mp hround
    exact (ha s hs).bind fun _ _ hs => (ih has hs).bind fun _ _ hs => under_pure hs

/-! ## Quiet programs -/

theorem Only.quiet (hp : p.Only P) (hkeeps : ∀ s c, P c → (answer s c).2 = s) : p.Quiet answer := by
  intro s
  induction hp with
  | done result => rfl
  | @call c next hc hnext ih =>
    show ((next _).exec answer (answer s c).2).2 = s
    rw [hkeeps s c hc]
    exact ih _

theorem exec_each (hf : ∀ a, (f a).Quiet answer) (as : List α) (s : σ) :
    (each f as).exec answer s = (as.map fun a => ((f a).exec answer s).1, s) := by
  induction as with
  | nil => rfl
  | cons a as ih =>
    rw [each, exec_bind, exec_bind, hf a s, ih]
    rfl

/-- A quiet program for each element makes the calls of each in the same state. -/
theorem throughout_each (hf : ∀ a, (f a).Quiet answer) (as : List α) (s : σ) :
    (each f as).Throughout answer ok s ↔ ∀ a ∈ as, (f a).Throughout answer ok s := by
  induction as with
  | nil => exact iff_of_true (nofun) (nofun)
  | cons a as ih =>
    rw [each, throughout_bind, throughout_bind, hf a s, ih]
    simp

end Execution

end Prog

end BlakTail.Foundation
