import BlakTail.Foundation.Run

/-!
# Interleaved Transactions

Transactions over a shared state that read, statement by statement, what is committed at the
moment and then write.  Between two statements of one transaction others may commit, so its reads
may come from different states and be stale when it writes.  A row that one transaction wrote is
locked until it ends, so the writes of a transaction are taken together at its commit.  `write` is
given the states read and the state at the commit: what an update does to a row that has changed
since it was matched is its own affair.

One lock can be held from the first statement on; a transaction that writes what it protects
waits for the holder to end.
-/

namespace BlakTail.Foundation

/-- What the requests of a system do as transactions. -/
structure Protocol (σ ρ : Type) where
  /-- how many statements read before it writes -/
  reads : ρ → Nat
  /-- it takes the lock with its first statement -/
  holds : ρ → Bool
  /-- it writes what the lock protects -/
  waits : ρ → Bool
  /-- the state it leaves, given what its statements read; `none` if it is rolled back -/
  write : ρ → List σ → σ → Option σ

/-- An open transaction and the states its statements have read, in their order. -/
structure Pending (σ ρ : Type) where
  request : ρ
  views : List σ := []

/-- The committed state and the open transactions. -/
structure World (σ ρ : Type) where
  committed : σ
  pending : List (Pending σ ρ) := []

inductive Statement (ρ : Type) where
  | start (request : ρ)
  | read (i : Nat)
  | commit (i : Nat)
  | abandon (i : Nat)

namespace Protocol

variable {σ ρ : Type} (P : Protocol σ ρ)

/-- A transaction is opened unless it would have to wait for the lock. -/
def start (w : World σ ρ) (request : ρ) : World σ ρ :=
  if P.holds request && w.pending.any (fun txn => P.holds txn.request) then w
  else { w with pending := w.pending ++ [⟨request, []⟩] }

/-- One more statement of an open transaction reads. -/
def look (w : World σ ρ) (i : Nat) : World σ ρ :=
  match w.pending[i]? with
  | some txn =>
    if txn.views.length < P.reads txn.request then
      { w with pending := w.pending.set i ⟨txn.request, txn.views ++ [w.committed]⟩ }
    else w
  | none => w

/-- Whether another open transaction holds the lock. -/
def lockedOut (w : World σ ρ) (i : Nat) : Bool :=
  (w.pending.eraseIdx i).any fun other => P.holds other.request

/-- What a transaction that has read everything leaves when it commits. -/
def outcome (w : World σ ρ) (i : Nat) : Option σ := do
  let txn ← w.pending[i]?
  if txn.views.length ≠ P.reads txn.request then none
  else if P.waits txn.request && P.lockedOut w i then none
  else P.write txn.request txn.views w.committed

def commit (w : World σ ρ) (i : Nat) : World σ ρ :=
  match P.outcome w i with
  | some s => { committed := s, pending := w.pending.eraseIdx i }
  | none => w

/-- One statement of one of the open transactions. -/
def step (w : World σ ρ) : Statement ρ → World σ ρ
  | .start request => P.start w request
  | .read i => P.look w i
  | .commit i => P.commit w i
  | .abandon i => { w with pending := w.pending.eraseIdx i }

/-- A transaction that nothing comes between. -/
def serial (s : σ) (request : ρ) : σ :=
  (P.write request (List.replicate (P.reads request) s) s).getD s

/-! ## Invariants -/

section Invariant

variable {P} {Inv : σ → Prop} {Seen : ρ → σ → σ → Prop} {Meets : ρ → List σ → σ → Prop}
  {w : World σ ρ} {s : σ}

/-- Transactions meet a condition on what they have read and what is committed when they commit. -/
def Commits (Meets : ρ → List σ → σ → Prop) (w : World σ ρ) : Statement ρ → Prop
  | .commit i => ∀ txn ∈ w.pending[i]?, Meets txn.request txn.views w.committed
  | _ => True

instance [∀ request views s, Decidable (Meets request views s)] (w : World σ ρ)
    (statement : Statement ρ) : Decidable (Commits Meets w statement) := by
  unfold Commits
  split
  all_goals infer_instance

/-- The rules for an invariant of the committed state.  `Seen request view now` is what the
transaction may rely on about a state it has read. -/
structure Keeps (P : Protocol σ ρ) (Meets : ρ → List σ → σ → Prop) (Inv : σ → Prop)
    (Seen : ρ → σ → σ → Prop) : Prop where
  /-- what is read is committed -/
  now : ∀ {request s}, Inv s → Seen request s s
  /-- commits of the others, which wait for a holder of the lock -/
  others : ∀ {request other views view s s'}, (P.holds request → P.waits other = false) →
    Inv s → (∀ v ∈ views, Inv v ∧ Seen other v s) → Meets other views s →
    P.write other views s = some s' → Inv view → Seen request view s → Seen request view s'
  write : ∀ {request views s s'}, Inv s → (∀ v ∈ views, Inv v ∧ Seen request v s) →
    Meets request views s → P.write request views s = some s' → Inv s'

/-- The committed state has the invariant, and what was read is as it may be relied on. -/
structure Kept (Inv : σ → Prop) (Seen : ρ → σ → σ → Prop) (w : World σ ρ) : Prop where
  committed : Inv w.committed
  views : ∀ txn ∈ w.pending, ∀ view ∈ txn.views,
    Inv view ∧ Seen txn.request view w.committed

theorem start_kept (hw : Kept Inv Seen w) (request : ρ) : Kept Inv Seen (P.start w request) := by
  unfold start
  split_ifs
  · exact hw
  · refine ⟨hw.committed, fun txn htxn view hview => ?_⟩
    rcases List.mem_append.mp htxn with htxn | htxn
    · exact hw.views txn htxn view hview
    · cases List.mem_singleton.mp htxn
      cases hview

theorem look_kept (hkeeps : Keeps P Meets Inv Seen) (hw : Kept Inv Seen w) (i : Nat) :
    Kept Inv Seen (P.look w i) := by
  unfold look
  cases hi : w.pending[i]? with
  | none => exact hw
  | some txn =>
    dsimp only
    split_ifs
    · refine ⟨hw.committed, fun other hother view hview => ?_⟩
      rcases List.mem_or_eq_of_mem_set hother with hother | rfl
      · exact hw.views other hother view hview
      · rcases List.mem_append.mp hview with hview | hview
        · exact hw.views txn (List.mem_of_getElem? hi) view hview
        · cases List.mem_singleton.mp hview
          exact ⟨hw.committed, hkeeps.now hw.committed⟩
    · exact hw

/-- What committing transactions wrote. -/
theorem outcome_eq_some {i : Nat} (h : P.outcome w i = some s) :
    ∃ txn, w.pending[i]? = some txn ∧ txn.views.length = P.reads txn.request ∧
      (P.waits txn.request → P.lockedOut w i = false) ∧
      P.write txn.request txn.views w.committed = some s := by
  simp only [outcome, bind, Option.bind_eq_some_iff] at h
  obtain ⟨txn, htxn, h⟩ := h
  obtain ⟨hread, h⟩ := Option.ite_none_left_eq_some.mp h
  obtain ⟨hlock, h⟩ := Option.ite_none_left_eq_some.mp h
  refine ⟨txn, htxn, not_not.mp hread, fun hwaits => ?_, h⟩
  rw [hwaits, Bool.true_and] at hlock
  exact Bool.not_eq_true _ ▸ hlock

section

variable (hkeeps : Keeps P Meets Inv Seen)
include hkeeps

theorem commit_kept (hw : Kept Inv Seen w) {i : Nat} (hmeets : Commits Meets w (.commit i)) :
    Kept Inv Seen (P.commit w i) := by
  unfold commit
  cases houtcome : P.outcome w i with
  | none => exact hw
  | some s =>
    obtain ⟨txn, htxn, -, hlock, hwrite⟩ := outcome_eq_some houtcome
    have hviews := hw.views txn (List.mem_of_getElem? htxn)
    have hmeets := hmeets txn htxn
    refine ⟨hkeeps.write hw.committed hviews hmeets hwrite, fun other hother view hview => ?_⟩
    obtain ⟨hinv, hseen⟩ := hw.views other (List.mem_of_mem_eraseIdx hother) view hview
    refine ⟨hinv, hkeeps.others (fun hholds => ?_) hw.committed hviews hmeets hwrite hinv hseen⟩
    -- a holder among the others makes a transaction that waits wait
    by_contra hwaits
    have hfree := hlock (by simpa using hwaits)
    exact absurd hholds (List.any_eq_false.mp hfree other hother)

theorem step_kept (w : World σ ρ) (statement : Statement ρ) (hmeets : Commits Meets w statement)
    (hw : Kept Inv Seen w) : Kept Inv Seen (P.step w statement) := by
  cases statement with
  | start request => exact start_kept hw request
  | read i => exact look_kept hkeeps hw i
  | commit i => exact commit_kept hkeeps hw hmeets
  | abandon i =>
    exact ⟨hw.committed, fun txn htxn => hw.views txn (List.mem_of_mem_eraseIdx htxn)⟩

/-- What every transaction keeps, given what it may rely on, holds in every interleaving whose
commits meet the condition. -/
theorem invariant (hs : Inv s) {statements : List (Statement ρ)}
    (hmeets : Along P.step (Commits Meets) ⟨s, []⟩ statements) :
    Kept Inv Seen (run P.step ⟨s, []⟩ statements) :=
  run_invariant_along (step_kept hkeeps) hmeets ⟨hs, nofun⟩

/-- Transactions that run one after another keep the invariant too. -/
theorem serial_invariant (hs : Inv s) (request : ρ)
    (hmeets : Meets request (List.replicate (P.reads request) s) s) :
    Inv (P.serial s request) := by
  unfold serial
  cases hwrite : P.write request (List.replicate (P.reads request) s) s with
  | none => exact hs
  | some s' =>
    refine hkeeps.write hs (fun view hview => ?_) hmeets hwrite
    obtain rfl := List.eq_of_mem_replicate hview
    exact ⟨hs, hkeeps.now hs⟩

end

end Invariant

end Protocol

end BlakTail.Foundation
