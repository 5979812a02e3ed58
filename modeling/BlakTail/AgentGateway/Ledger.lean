import BlakTail.AgentGateway.Quota

/-!
# The Quota Ledger

The tokens counter of a day against the history of granted requests, over every interleaving of
the statements.  A report reads its request's row, and only then locks the day and the row: two
reports of one request that overlap both find it pending.
-/

namespace BlakTail.AgentGateway

open Foundation Foundation.Transactions Control Db

/-! ## What a transaction has in hand -/

def Phase.adds : Phase → Day → Int
  | .reserved ask reserve, day | .granted ask reserve _, day => if day = ask.day then reserve else 0
  | .settled input request _, day | .closed input request, day =>
    if day = request.day then input.tokens - request.reserved else 0
  | _, _ => 0

/-- The request a report has found pending. -/
def Phase.reads : Phase → Option (Uuid × Request)
  | .found input request _ | .settled input request _ | .closed input request =>
    some (input.requestId, request)
  | _ => none

def Phase.reserves : Phase → Option (Ask × Int)
  | .reserved ask reserve | .granted ask reserve _ => some (ask, reserve)
  | _ => none

def Phase.grants : Phase → Option (Uuid × Day × Int)
  | .granted ask reserve id => some (id, ask.day, reserve)
  | _ => none

def Phase.Bare : Phase → Prop
  | .reserved .. | .granted .. | .found .. | .settled .. | .closed .. => False
  | _ => True

namespace Phase.Bare

variable {phase : Phase}

theorem adds (h : phase.Bare) (day : Day) : phase.adds day = 0 := by
  cases phase <;> first | rfl | exact h.elim

theorem reads (h : phase.Bare) : phase.reads = none := by
  cases phase <;> first | rfl | exact h.elim

theorem reserves (h : phase.Bare) : phase.reserves = none := by
  cases phase <;> first | rfl | exact h.elim

theorem grants (h : phase.Bare) : phase.grants = none := by
  cases phase <;> first | rfl | exact h.elim

theorem of_purges {org : String} (h : phase.purges = some org) : phase.Bare := by
  cases phase <;> first | exact trivial | cases h

end Phase.Bare

/-! ## What a statement can do -/

/-- The day's row is written with its tokens raised by `n`, or nothing is written and `n` is 0. -/
inductive Raises (s : Db) (t : Nat) (tx : Tx) (day : Day) (n : Int) : Writes Day Quota → Prop
  | same (h : n = 0) : Raises s t tx day n tx.quota
  | wrote (q : Quota) (hfree : s.quotaFree t day)
      (hq : q.tokens = tokensAt (view s.quota tx.quota) day + n) :
      Raises s t tx day n (write tx.quota day (some q))

/-- Everything a statement can do. -/
inductive Effect (s : Db) (t : Nat) (tx : Tx) (stmt : Stmt) : Tx → Prop
  | purged (id : Uuid) (row : Option Request) (hphase : tx.phase.Bare)
      (hview : view s.requests tx.requests id ≠ none) (hfree : s.requestFree t id)
      (hrow : ∀ r ∈ row, r.status ≠ .pending) :
      Effect s t tx stmt { tx with requests := write tx.requests id row }
  | counted (phase : Phase) (day : Day) (w : Writes Day Quota) (hphase : tx.phase.Bare)
      (hbare : phase.Bare) (hw : Raises s t tx day 0 w) :
      Effect s t tx stmt { tx with phase := phase, quota := w }
  | reserved (ask : Ask) (reserve : Int) (q : Quota) (hphase : tx.phase.Bare)
      (hfree : s.quotaFree t ask.day)
      (hq : q.tokens = tokensAt (view s.quota tx.quota) ask.day + reserve)
      (htokens : q.tokens ≤ ask.dailyTokenQuota) (hrequests : q.requests ≤ ask.dailyRequestQuota) :
      Effect s t tx stmt
        { tx with phase := .reserved ask reserve, quota := write tx.quota ask.day (some q) }
  | inserted (ask : Ask) (reserve now : Int) (hphase : tx.phase = .reserved ask reserve) :
      Effect s t tx stmt
        { tx with
          phase := .granted ask reserve s.next
          requests := write tx.requests s.next
            (some ⟨ask.org, ask.day, ask.gateway, .pending, reserve, now, none⟩) }
  | found (input : UsageInput) (row : Request) (off : Bool) (hstmt : stmt = .selectRequest off)
      (hphase : tx.phase = .reporting input)
      (hview : view s.requests tx.requests input.requestId = some row)
      (hpending : row.status = .pending) :
      Effect s t tx stmt { tx with phase := .found input row off }
  | settled (input : UsageInput) (row : Request) (off : Bool) (w : Writes Day Quota)
      (hphase : tx.phase = .found input row off)
      (hw : (view s.quota tx.quota row.day = none ∧ w = tx.quota) ∨
        Raises s t tx row.day (input.tokens - row.reserved) w) :
      Effect s t tx stmt { tx with phase := .settled input row off, quota := w }
  | closed (input : UsageInput) (row : Request) (off : Bool) (w : Writes Uuid Request)
      (hphase : tx.phase = .settled input row off)
      (hw : (view s.requests tx.requests input.requestId = none ∧ w = tx.requests) ∨
        (s.requestFree t input.requestId ∧ view s.requests tx.requests input.requestId ≠ none ∧
          ∃ kept : Option Request, (∀ r ∈ kept, r.status ≠ .pending) ∧
            w = write tx.requests input.requestId kept)) :
      Effect s t tx stmt { tx with phase := .closed input row, requests := w }

section Effects

variable {s : Db} {t : Nat} {tx tx' : Tx} {day : Day}

theorem tokensAt_of_eq {rows : Rows Day Quota}
    {q : Quota} (h : rows day = some q) : tokensAt rows day = q.tokens := by
  rw [tokensAt, h]
  rfl

theorem ensureDay_cases (h : s.ensureDay t tx day = some tx') :
    ∃ w, tx' = { tx with quota := w } ∧ Raises s t tx day 0 w := by
  rw [ensureDay] at h
  split_ifs at h with hsome hfree
  · cases h
    exact ⟨_, rfl, .same rfl⟩
  · cases h
    have hnone : view s.quota tx.quota day = none := by simpa using hsome
    refine ⟨_, rfl, .wrote _ hfree ?_⟩
    rw [tokensAt, hnone]
    rfl

theorem updateDay_cases {f : Quota → Quota} {n : Int} (hf : ∀ q, (f q).tokens = q.tokens + n)
    (h : s.updateDay t tx day f = some tx') :
    ∃ w, tx' = { tx with quota := w } ∧
      ((view s.quota tx.quota day = none ∧ w = tx.quota) ∨ Raises s t tx day n w) := by
  rw [updateDay] at h
  cases hview : view s.quota tx.quota day with
  | none =>
    rw [hview] at h
    cases h
    exact ⟨_, rfl, .inl ⟨rfl, rfl⟩⟩
  | some q =>
    rw [hview] at h
    split_ifs at h with hfree
    cases h
    refine ⟨_, rfl, .inr (.wrote _ hfree ?_)⟩
    rw [hf, tokensAt_of_eq hview]

theorem changeRequest_cases {id : Uuid} {f : Request → Option Request}
    (h : s.changeRequest t tx id f = some tx') :
    (view s.requests tx.requests id = none ∧ tx' = tx) ∨
      ∃ r, view s.requests tx.requests id = some r ∧ s.requestFree t id ∧
        tx' = { tx with requests := write tx.requests id (f r) } := by
  rw [changeRequest] at h
  cases hview : view s.requests tx.requests id with
  | none =>
    rw [hview] at h
    cases h
    exact .inl ⟨rfl, rfl⟩
  | some r =>
    rw [hview] at h
    split_ifs at h with hfree
    cases h
    exact .inr ⟨r, rfl, hfree, rfl⟩

theorem exec_purged {stmt : Stmt} {id : Uuid} {row : Request} {org : String}
    {f : Request → Option Request} (hpurges : tx.phase.purges = some org)
    (hview : view s.requests tx.requests id = some row) (hf : ∀ r, ∀ r' ∈ f r, r'.status ≠ .pending)
    (h : s.changeRequest t tx id f = some tx') : Effect s t tx stmt tx' := by
  rcases changeRequest_cases h with ⟨hnone, _⟩ | ⟨r, -, hfree, rfl⟩
  · rw [hview] at hnone
    cases hnone
  · exact .purged id (f r) (.of_purges hpurges) (by simp [hview]) hfree (hf r)

/-- A statement that makes sure the day has a row. -/
theorem exec_ensured {stmt : Stmt} {phase : Phase}
    (h : ((s.ensureDay t tx day).map fun tx => { tx with phase := phase }) = some tx')
    (hphase : tx.phase.Bare) (hbare : phase.Bare) : Effect s t tx stmt tx' := by
  obtain ⟨tx₁, hensure, rfl⟩ := Option.map_eq_some_iff.mp h
  obtain ⟨w, rfl, hw⟩ := ensureDay_cases hensure
  exact .counted _ day w hphase hbare hw

theorem exec_reserve (h : s.exec t tx .reserve = some tx') : Effect s t tx .reserve tx' := by
  simp only [exec] at h
  split at h
  case h_2 => cases h
  case h_1 ask used hphase =>
    have hbare : tx.phase.Bare := by rw [hphase]; trivial
    have hrefused : Effect s t tx .reserve { tx with phase := .refused } :=
      .counted _ ask.day _ hbare trivial (.same rfl)
    split_ifs at h with hout hfree
    · cases h
      exact hrefused
    · split at h
      · next q hq =>
        -- the row as it is once the lock is held has room for the reservation
        cases h
        obtain ⟨hview, hallows⟩ := Option.filter_eq_some_iff.mp hq
        simp only [Ask.allows, Bool.and_eq_true, decide_eq_true_eq] at hallows
        refine .reserved ask _ _ hbare hfree ?_ hallows.2 (by simpa using hallows.1)
        rw [tokensAt_of_eq hview]
      · cases h
        exact hrefused

theorem exec_countDenial (h : s.exec t tx .countDenial = some tx') :
    Effect s t tx .countDenial tx' := by
  simp only [exec] at h
  split at h
  case h_2 => cases h
  case h_1 day hphase =>
    have hbare : tx.phase.Bare := by rw [hphase]; trivial
    obtain ⟨tx₁, hupdate, rfl⟩ := Option.map_eq_some_iff.mp h
    -- a denial adds no tokens
    obtain ⟨w, rfl, ⟨-, rfl⟩ | hw⟩ := updateDay_cases (n := 0) (fun q => by simp) hupdate
    · exact .counted _ day _ hbare trivial (.same rfl)
    · exact .counted _ day w hbare trivial hw

theorem exec_close {now : Int} (h : s.exec t tx (.close now) = some tx') :
    Effect s t tx (.close now) tx' := by
  simp only [exec] at h
  split at h
  case h_2 => cases h
  case h_1 input row off hphase =>
    obtain ⟨tx₁, hchange, rfl⟩ := Option.map_eq_some_iff.mp h
    rcases changeRequest_cases hchange with ⟨hnone, rfl⟩ | ⟨r, hview, hfree, rfl⟩
    · exact .closed input row off _ hphase (.inl ⟨hnone, rfl⟩)
    · refine .closed input row off _ hphase (.inr ⟨hfree, by simp [hview], _, ?_, rfl⟩)
      -- with logging off the row goes, otherwise it ends as ok or error
      intro r' hr'
      cases off with
      | true => cases hr'
      | false =>
        cases hr'
        split <;> exact nofun

/-- What each statement does, read off its definition once. -/
theorem exec_effect {stmt : Stmt} (h : s.exec t tx stmt = some tx') : Effect s t tx stmt tx' := by
  cases stmt with
  | expireRow id now =>
    simp only [exec, Option.bind_eq_bind, Option.bind_eq_some_iff] at h
    obtain ⟨org, hpurges, row, hview, h⟩ := h
    split_ifs at h
    -- deleted
    exact exec_purged hpurges hview (fun _ _ hr => by cases hr) h
  | abandonRow id now =>
    simp only [exec, Option.bind_eq_bind, Option.bind_eq_some_iff] at h
    obtain ⟨org, hpurges, row, hview, h⟩ := h
    split_ifs at h
    -- closed as abandoned; its tokens stay charged
    refine exec_purged hpurges hview ?_ h
    rintro r _ ⟨⟩
    exact nofun
  | insertDay ask =>
    simp only [exec] at h
    split at h
    case h_2 => cases h
    case h_1 org hphase =>
      split_ifs at h
      exact exec_ensured h (by rw [hphase]; trivial) trivial
  | selectTokens =>
    simp only [exec] at h
    split at h
    case h_2 => cases h
    case h_1 ask hphase =>
      obtain ⟨q, -, rfl⟩ := Option.map_eq_some_iff.mp h
      exact .counted _ ask.day _ (by rw [hphase]; trivial) trivial (.same rfl)
  | reserve => exact exec_reserve h
  | insertRequest now =>
    simp only [exec] at h
    split at h
    case h_2 => cases h
    case h_1 ask reserve hphase =>
      cases h
      exact .inserted ask reserve now hphase
  | insertDenial day =>
    simp only [exec] at h
    split at h
    case h_3 => cases h
    all_goals
      next hphase => exact exec_ensured h (by rw [hphase]; trivial) trivial
  | countDenial => exact exec_countDenial h
  | selectRequest off =>
    simp only [exec] at h
    split at h
    case h_2 => cases h
    case h_1 input hphase =>
      obtain ⟨row, hview, h⟩ := Option.bind_eq_some_iff.mp h
      split_ifs at h with hrow
      cases h
      exact .found input row off rfl hphase hview hrow.2.2
  | settle =>
    simp only [exec] at h
    split at h
    case h_2 => cases h
    case h_1 input row off hphase =>
      obtain ⟨tx₁, hupdate, rfl⟩ := Option.map_eq_some_iff.mp h
      obtain ⟨w, rfl, hw⟩ := updateDay_cases (fun q => rfl) hupdate
      exact .settled input row off w hphase hw
  | close now => exact exec_close h

end Effects

/-! ## The invariant -/

/-- The entry of a request as its row has it, not reported on so far. -/
structure Entry.Of (e : Entry) (id : Uuid) (row : Request) : Prop where
  id_eq : e.id = id
  day : e.day = row.day
  reserve : e.reserve = row.reserved
  unreported : e.reports = []

/-- An open transaction against the committed state. -/
structure Tx.Sound (s : Db) (tx : Tx) : Prop where
  tokens : ∀ day, tokensAt (view s.quota tx.quota) day = tokensAt s.quota day + tx.phase.adds day
  rows : ∀ day, tx.quota day ≠ some none
  within : ∀ ask reserve, tx.phase.reserves = some (ask, reserve) → ∃ q : Quota,
    tx.quota ask.day = some (some q) ∧ q.tokens ≤ ask.dailyTokenQuota ∧
      q.requests ≤ ask.dailyRequestQuota
  fresh : ∀ id, tx.requests id ≠ none → id < s.next
  /-- the only pending row it wrote is the one of the request it grants -/
  pending : ∀ id r, tx.requests id = some (some r) → r.status = .pending →
    tx.phase.grants = some (id, r.day, r.reserved)
  granted : ∀ id day reserve, tx.phase.grants = some (id, day, reserve) →
    tx.requests id ≠ none ∧ ∀ e ∈ s.history, e.id ≠ id
  reads : ∀ id row, tx.phase.reads = some (id, row) → ∃ e ∈ s.history, e.Of id row
  closed : ∀ input row, tx.phase = .closed input row →
    ∀ r, view s.requests tx.requests input.requestId = some r → r.status ≠ .pending

/-- Two open transactions do not meet. -/
structure Tx.Clear (tx tx' : Tx) : Prop where
  quota : Apart tx.quota tx'.quota
  requests : Apart tx.requests tx'.requests
  reads : ∀ id row row', tx.phase.reads = some (id, row) → tx'.phase.reads ≠ some (id, row')

theorem Tx.Clear.symm {tx tx' : Tx} (h : tx.Clear tx') : tx'.Clear tx :=
  ⟨h.quota.symm, h.requests.symm, fun id row row' h₁ h₂ => h.reads id row' row h₂ h₁⟩

structure Db.Sound (s : Db) : Prop where
  ledger : ∀ day, tokensAt s.quota day = charged s.history day
  days : ∀ e ∈ s.history, s.quota e.day ≠ none
  once : ∀ e ∈ s.history, e.reports.length ≤ 1
  left : ∀ e ∈ s.history, e.left.tokens ≤ e.dailyTokenQuota ∧ e.left.requests ≤ e.dailyRequestQuota
  ids : (s.history.map Entry.id).Nodup
  granted : ∀ e ∈ s.history, e.id < s.next
  known : ∀ id, s.requests id ≠ none → id < s.next
  pending : ∀ id r, s.requests id = some r → r.status = .pending → ∃ e ∈ s.history, e.Of id r
  txs : ∀ t tx, s.txs.lookup t = some tx → tx.Sound s
  clear : ∀ t t' tx tx', t ≠ t' → s.txs.lookup t = some tx → s.txs.lookup t' = some tx' →
    tx.Clear tx'

/-! ## Statements -/

section Statements

variable {s : Db} {t : Nat} {tx tx' : Tx} {w : Writes Day Quota} {day : Day} {n : Int}
  {row : Option Request} {t' : Nat} {other : Tx}

/-- A transaction stays sound when others come and go and ids are given out. -/
theorem Tx.Sound.mono (h : tx.Sound s) {txs : Table Nat Tx} {next : Uuid} (hnext : s.next ≤ next) :
    tx.Sound { s with txs := txs, next := next } :=
  { h with fresh := fun id hid => lt_of_lt_of_le (h.fresh id hid) hnext }

theorem others_iff {p : Tx → Bool} :
    s.others t p ↔ ∀ t' tx', t' ≠ t → s.txs.lookup t' = some tx' → p tx' := by
  unfold others
  rw [List.all_eq_true]
  constructor
  · intro h t' tx' hne hlookup
    simpa [hne] using h ⟨t', tx'⟩ (Table.lookup_eq_some_iff.mp hlookup)
  · rintro h ⟨t', tx'⟩ hmem
    by_cases hne : t' = t
    · simp [hne]
    · simpa [hne] using h t' tx' hne (Table.lookup_eq_some_iff.mpr hmem)

/-- A raised day shows in the transaction's view and nothing else does. -/
theorem Raises.view (h : Raises s t tx day n w) (day' : Day) :
    tokensAt (view s.quota w) day' =
      tokensAt (view s.quota tx.quota) day' + if day' = day then n else 0 := by
  cases h with
  | same hn =>
    subst hn
    simp
  | wrote q hfree hq =>
    rw [tokensAt, view_write]
    by_cases heq : day' = day
    · subst heq
      rw [if_pos rfl, if_pos rfl, ← hq]
      rfl
    · rw [if_neg heq, if_neg heq, add_zero, tokensAt]

theorem Raises.rows (h : Raises s t tx day n w) (hrows : ∀ day, tx.quota day ≠ some none)
    (day' : Day) : w day' ≠ some none := by
  cases h with
  | same => exact hrows day'
  | wrote q =>
    rw [write_apply]
    split_ifs
    · exact nofun
    · exact hrows day'

/-- A request a transaction sees has an id that was given out. -/
theorem Tx.Sound.seen (hs : s.Sound) (h : tx.Sound s) {id : Uuid}
    (hview : view s.requests tx.requests id ≠ none) : id < s.next := by
  by_cases hwrote : tx.requests id = none
  · rw [view_of_unwritten hwrote] at hview
    exact hs.known id hview
  · exact h.fresh id hwrote

/-- A pending request that a transaction sees was granted and not reported on, unless the
transaction grants it itself. -/
theorem Tx.Sound.seen_pending (hs : s.Sound) (h : tx.Sound s) {id : Uuid} {row : Request}
    (hview : view s.requests tx.requests id = some row) (hpending : row.status = .pending)
    (hgrants : tx.phase.grants = none) : ∃ e ∈ s.history, e.Of id row := by
  cases hwrote : tx.requests id with
  | none =>
    rw [view_of_unwritten hwrote] at hview
    exact hs.pending id row hview hpending
  | some r =>
    rw [view_of_written hwrote] at hview
    subst hview
    rw [h.pending id row hwrote hpending] at hgrants
    cases hgrants

/-- The day of a granted request is there to be settled. -/
theorem Tx.Sound.day_there (hs : s.Sound) (h : tx.Sound s) {e : Entry} (he : e ∈ s.history) :
    view s.quota tx.quota e.day ≠ none := by
  cases hwrote : tx.quota e.day with
  | none =>
    rw [view_of_unwritten hwrote]
    exact hs.days e he
  | some row =>
    rw [view_of_written hwrote]
    rintro rfl
    exact h.rows e.day hwrote

theorem write_nonpending {w : Writes Uuid Request} {id id' : Uuid} {r : Request}
    (hrow : ∀ r ∈ row, r.status ≠ .pending) (hwrote : write w id row id' = some (some r))
    (hpending : r.status = .pending) : w id' = some (some r) := by
  rw [write_apply] at hwrote
  split_ifs at hwrote with heq
  · cases hwrote
    exact absurd hpending (hrow r rfl)
  · exact hwrote

theorem write_fresh {w : Writes Uuid Request} {id id' bound : Uuid} (hid : id < bound)
    (hfresh : ∀ id, w id ≠ none → id < bound) (h : write w id row id' ≠ none) : id' < bound := by
  rw [write_apply] at h
  split_ifs at h with heq
  · rw [heq]
    exact hid
  · exact hfresh id' h

/-- A transaction with nothing in hand that has counted tokens, and holds a reservation now. -/
theorem Tx.Sound.raise (h : tx.Sound s) (hbare : tx.phase.Bare) {phase : Phase}
    (hw : Raises s t tx day n w) (hadds : ∀ day', phase.adds day' = if day' = day then n else 0)
    (hreads : phase.reads = none) (hgrants : phase.grants = none)
    (hwithin : ∀ ask reserve, phase.reserves = some (ask, reserve) →
      ∃ q : Quota, w ask.day = some (some q) ∧ q.tokens ≤ ask.dailyTokenQuota ∧
        q.requests ≤ ask.dailyRequestQuota) :
    Tx.Sound s { tx with phase := phase, quota := w } where
  tokens day' := by
    show tokensAt (view s.quota w) day' = _
    rw [hw.view, h.tokens, hbare.adds, hadds, add_zero]
  rows := hw.rows h.rows
  within := hwithin
  fresh := h.fresh
  pending id r hwrote hpending := by
    have := h.pending id r hwrote hpending
    rw [hbare.grants] at this
    cases this
  granted id day reserve hg := by
    rw [hgrants] at hg
    cases hg
  reads id row hr := by
    rw [hreads] at hr
    cases hr
  closed input row hphase := by
    dsimp only at hphase
    rw [hphase] at hreads
    cases hreads

theorem Tx.Sound.purge (hs : s.Sound) (h : tx.Sound s) {id : Uuid} (hphase : tx.phase.Bare)
    (hview : view s.requests tx.requests id ≠ none) (hrow : ∀ r ∈ row, r.status ≠ .pending) :
    Tx.Sound s { tx with requests := write tx.requests id row } :=
  { h with
    fresh := fun id' hid => write_fresh (h.seen hs hview) h.fresh hid
    pending := fun id' r hwrote hpending =>
      h.pending id' r (write_nonpending hrow hwrote hpending) hpending
    granted := fun id' day reserve hgrants => by
      rw [hphase.grants] at hgrants
      cases hgrants
    closed := fun input row hclosed => by
      rw [hclosed] at hphase
      exact hphase.elim }

/-- The granted request's row is the one pending row the transaction writes. -/
theorem Tx.Sound.insert (hs : s.Sound) (h : tx.Sound s) {ask : Ask} {reserve now : Int}
    (hphase : tx.phase = .reserved ask reserve) (txs : Table Nat Tx) :
    Tx.Sound { s with txs := txs, next := s.next + 1 }
      { tx with
        phase := .granted ask reserve s.next
        requests := write tx.requests s.next
          (some ⟨ask.org, ask.day, ask.gateway, .pending, reserve, now, none⟩) } where
  tokens day := by
    rw [h.tokens day, hphase]
    rfl
  rows := h.rows
  within ask' reserve' hr := h.within ask' reserve' (by rw [hphase]; exact hr)
  fresh id hid :=
    write_fresh (Nat.lt_succ_self _) (fun id' h' => Nat.lt_succ_of_lt (h.fresh id' h')) hid
  pending id r hwrote hpending := by
    dsimp only at hwrote
    rw [write_apply] at hwrote
    split_ifs at hwrote with heq
    · cases hwrote
      rw [heq]
      rfl
    · have hgrants := h.pending id r hwrote hpending
      rw [hphase] at hgrants
      cases hgrants
  granted id day reserve' hg := by
    cases hg
    constructor
    · dsimp only
      rw [write_apply, if_pos rfl]
      exact nofun
    · intro e he
      exact (hs.granted e he).ne
  reads := nofun
  closed := nofun

/-- A transaction that grants nothing moves to a report's phase with the same writes of requests,
or fewer pending ones. -/
theorem Tx.Sound.report (h : tx.Sound s) (hgrants : tx.phase.grants = none) {phase : Phase}
    {wr : Writes Uuid Request}
    (htokens : ∀ day, tokensAt (view s.quota w) day = tokensAt s.quota day + phase.adds day)
    (hrows : ∀ day, w day ≠ some none) (hnone : phase.grants = none)
    (hres : phase.reserves = none) (hfresh : ∀ id, wr id ≠ none → id < s.next)
    (hpending : ∀ id r, wr id = some (some r) → r.status = .pending →
      tx.requests id = some (some r))
    (hreads : ∀ id row, phase.reads = some (id, row) → ∃ e ∈ s.history, e.Of id row)
    (hclosed : ∀ input row, phase = .closed input row →
      ∀ r, view s.requests wr input.requestId = some r → r.status ≠ .pending) :
    Tx.Sound s ⟨phase, w, wr⟩ where
  tokens := htokens
  rows := hrows
  within ask reserve hr := by
    rw [hres] at hr
    cases hr
  fresh := hfresh
  pending id r hwrote hp := by
    have hg := h.pending id r (hpending id r hwrote hp) hp
    rw [hgrants] at hg
    cases hg
  granted id day reserve hg := by
    rw [hnone] at hg
    cases hg
  reads := hreads
  closed := hclosed

section

variable (hs : s.Sound) {input : UsageInput}
include hs

theorem Tx.Sound.find (h : tx.Sound s) {row : Request} {off : Bool}
    (hphase : tx.phase = .reporting input)
    (hview : view s.requests tx.requests input.requestId = some row)
    (hpending : row.status = .pending) : Tx.Sound s { tx with phase := .found input row off } := by
  have hgrants : tx.phase.grants = none := by rw [hphase]; rfl
  refine h.report hgrants ?_ h.rows rfl rfl h.fresh (fun _ _ hwrote _ => hwrote) ?_
    nofun
  · intro day
    rw [h.tokens day, hphase]
    rfl
  · intro id row' hr
    cases hr
    exact h.seen_pending hs hview hpending hgrants

theorem Tx.Sound.settle (h : tx.Sound s) {row : Request} {off : Bool}
    (hphase : tx.phase = .found input row off)
    (hw : (view s.quota tx.quota row.day = none ∧ w = tx.quota) ∨
      Raises s t tx row.day (input.tokens - row.reserved) w) :
    Tx.Sound s { tx with phase := .settled input row off, quota := w } := by
  obtain ⟨e, he, hof⟩ := h.reads input.requestId row (by rw [hphase]; rfl)
  -- the request was granted, so its day's row is there and the update changes it
  have hraises : Raises s t tx row.day (input.tokens - row.reserved) w := by
    refine hw.resolve_left fun hnone => h.day_there hs he ?_
    rw [hof.day]
    exact hnone.1
  refine h.report (by rw [hphase]; rfl) ?_ (hraises.rows h.rows) rfl rfl h.fresh
    (fun _ _ hwrote _ => hwrote) (fun id row' hr => h.reads id row' (by rw [hphase]; exact hr))
    nofun
  intro day
  rw [hraises.view, h.tokens, hphase]
  show _ + 0 + _ = _
  rw [add_zero]
  rfl

theorem Tx.Sound.close (h : tx.Sound s) {row : Request} {off : Bool} {w : Writes Uuid Request}
    (hphase : tx.phase = .settled input row off)
    (hw : (view s.requests tx.requests input.requestId = none ∧ w = tx.requests) ∨
      (s.requestFree t input.requestId ∧ view s.requests tx.requests input.requestId ≠ none ∧
        ∃ kept : Option Request, (∀ r ∈ kept, r.status ≠ .pending) ∧
          w = write tx.requests input.requestId kept)) :
    Tx.Sound s { tx with phase := .closed input row, requests := w } := by
  refine h.report (by rw [hphase]; rfl) ?_ h.rows rfl rfl ?_ ?_ ?_ ?_
  · intro day
    rw [h.tokens day, hphase]
    rfl
  · intro id hid
    rcases hw with ⟨-, rfl⟩ | ⟨-, hview, kept, -, rfl⟩
    · exact h.fresh id hid
    · exact write_fresh (h.seen hs hview) h.fresh hid
  · intro id r hwrote hp
    rcases hw with ⟨-, rfl⟩ | ⟨-, -, kept, hkept, rfl⟩
    · exact hwrote
    · exact write_nonpending hkept hwrote hp
  · intro id row' hr
    exact h.reads id row' (by rw [hphase]; exact hr)
  · intro input' row' hc r hview
    cases hc
    rcases hw with ⟨hnone, rfl⟩ | ⟨-, -, kept, hkept, rfl⟩
    · rw [hnone] at hview
      cases hview
    · rw [view_write, if_pos rfl] at hview
      exact hkept r hview

theorem effect_sound {stmt : Stmt} (h : tx.Sound s) (heffect : Effect s t tx stmt tx')
    (txs : Table Nat Tx) : tx'.Sound { s with txs := txs, next := s.next + 1 } := by
  have hnext := Nat.le_succ s.next
  cases heffect with
  | purged id row hphase hview hfree hrow => exact (h.purge hs hphase hview hrow).mono hnext
  | counted phase day w hphase hbare hw =>
    refine Tx.Sound.mono (h.raise hphase hw (fun day' => ?_) hbare.reads hbare.grants ?_) hnext
    · rw [hbare.adds, ite_self]
    · intro ask reserve hr
      rw [hbare.reserves] at hr
      cases hr
  | reserved ask reserve q hphase hfree hq htokens hrequests =>
    refine Tx.Sound.mono (h.raise hphase (.wrote q hfree hq) (fun day' => rfl) rfl rfl ?_) hnext
    intro ask' reserve' hr
    cases hr
    exact ⟨q, by rw [write_apply, if_pos rfl], htokens, hrequests⟩
  | inserted ask reserve now hphase => exact h.insert hs hphase txs
  | found input row off _ hphase hview hpending =>
    exact (h.find hs hphase hview hpending).mono hnext
  | settled input row off w hphase hw => exact (h.settle hs hphase hw).mono hnext
  | closed input row off w hphase hw => exact (h.close hs hphase hw).mono hnext

end

/-! ### Locks -/

theorem Raises.apart (h : Raises s t tx day n w) (hne : t' ≠ t)
    (hother : s.txs.lookup t' = some other) (hapart : Apart tx.quota other.quota) :
    Apart w other.quota := by
  cases h with
  | same => exact hapart
  | wrote q hfree =>
    refine hapart.write ?_ _
    simpa using others_iff.mp hfree t' other hne hother

theorem requestFree_unwritten {id : Uuid} (hfree : s.requestFree t id) (hne : t' ≠ t)
    (hother : s.txs.lookup t' = some other) : other.requests id = none := by
  simpa using others_iff.mp hfree t' other hne hother

/-- A report reads a request only while no other open report has found it pending. -/
def Event.alone (s : Db) : Event → Bool
  | .exec t (.selectRequest _) =>
    match (s.txs.lookup t).map Tx.phase with
    | some (.reporting input) =>
      s.others t fun tx => tx.phase.reads.all fun found => found.1 != input.requestId
    | _ => true
  | _ => true

section

variable (hs : s.Sound)
include hs

theorem effect_clear {stmt : Stmt} (htx : s.txs.lookup t = some tx)
    (heffect : Effect s t tx stmt tx') (halone : (Event.exec t stmt).alone s) (hne : t' ≠ t)
    (hother : s.txs.lookup t' = some other) : tx'.Clear other := by
  have hclear := hs.clear t t' tx other hne.symm htx hother
  cases heffect with
  | purged id row hphase hview hfree hrow =>
    exact ⟨hclear.quota, hclear.requests.write (requestFree_unwritten hfree hne hother) _,
      hclear.reads⟩
  | counted phase day w hphase hbare hw =>
    refine ⟨hw.apart hne hother hclear.quota, hclear.requests, fun id row row' hr => ?_⟩
    rw [hbare.reads] at hr
    cases hr
  | reserved ask reserve q hphase hfree hq =>
    exact ⟨(Raises.wrote q hfree hq).apart hne hother hclear.quota, hclear.requests,
      fun id row row' hr => by cases hr⟩
  | inserted ask reserve now hphase =>
    refine ⟨hclear.quota, hclear.requests.write ?_ _, fun id row row' hr => by cases hr⟩
    -- the id is new, so nobody wrote its row
    by_contra hwrote
    exact lt_irrefl _ ((hs.txs t' other hother).fresh s.next hwrote)
  | found input row off hstmt hphase hview hpending =>
    subst hstmt
    rw [Event.alone, htx, Option.map_some, hphase] at halone
    refine ⟨hclear.quota, hclear.requests, ?_⟩
    intro id row₁ row₂ hr hr'
    cases hr
    have hall := others_iff.mp halone t' other hne hother
    rw [hr'] at hall
    simp at hall
  | settled input row off w hphase hw =>
    refine ⟨?_, hclear.requests, fun id row₁ row₂ hr => ?_⟩
    · rcases hw with ⟨-, rfl⟩ | hraises
      · exact hclear.quota
      · exact hraises.apart hne hother hclear.quota
    · exact hclear.reads id row₁ row₂ (by rw [hphase]; exact hr)
  | closed input row off w hphase hw =>
    refine ⟨hclear.quota, ?_, fun id row₁ row₂ hr => ?_⟩
    · rcases hw with ⟨-, rfl⟩ | ⟨hfree, -, kept, -, rfl⟩
      · exact hclear.requests
      · exact hclear.requests.write (requestFree_unwritten hfree hne hother) _
    · exact hclear.reads id row₁ row₂ (by rw [hphase]; exact hr)

/-- One transaction is replaced, and the committed rows stay. -/
theorem Db.Sound.put {next : Uuid} (hnext : s.next ≤ next)
    (hsound : tx'.Sound { s with txs := s.txs.insert t tx', next := next })
    (hclear : ∀ t' other, t' ≠ t → s.txs.lookup t' = some other → tx'.Clear other) :
    Sound { s with txs := s.txs.insert t tx', next := next } :=
  { hs with
    granted := fun e he => lt_of_lt_of_le (hs.granted e he) hnext
    known := fun id hid => lt_of_lt_of_le (hs.known id hid) hnext
    txs := by
      intro t₁ tx₁ h₁
      rw [Table.lookup_insert_if] at h₁
      split_ifs at h₁
      · cases h₁
        exact hsound
      · exact (hs.txs t₁ tx₁ h₁).mono hnext
    clear := by
      intro t₁ t₂ tx₁ tx₂ hne h₁ h₂
      rw [Table.lookup_insert_if] at h₁ h₂
      split_ifs at h₁ h₂ with heq₁ heq₂ heq₂
      · exact absurd (heq₁.trans heq₂.symm) hne
      · cases h₁
        exact hclear t₂ tx₂ heq₂ h₂
      · cases h₂
        exact (hclear t₁ tx₁ heq₁ h₁).symm
      · exact hs.clear t₁ t₂ tx₁ tx₂ hne h₁ h₂ }

theorem Db.Sound.exec {stmt : Stmt} (halone : (Event.exec t stmt).alone s) :
    (s.step (.exec t stmt)).Sound := by
  rw [Db.step]
  split
  · next tx' h =>
    obtain ⟨tx, htx, hexec⟩ := Option.bind_eq_some_iff.mp h
    have heffect := exec_effect hexec
    refine hs.put (Nat.le_succ _) (effect_sound hs (hs.txs t tx htx) heffect _) ?_
    intro t' other hne hother
    exact effect_clear hs htx heffect halone hne hother
  · exact hs

theorem Db.Sound.begin {phase : Phase} (hbare : phase.Bare) : (s.begin t phase).Sound := by
  rw [Db.begin]
  split_ifs with hopen
  · exact hs
  refine hs.put le_rfl ?_ ?_
  · exact {
      tokens := fun day => by
        rw [hbare.adds, add_zero]
        rfl
      rows := fun day => nofun
      within := fun ask reserve hr => by
        rw [hbare.reserves] at hr
        cases hr
      fresh := fun id hid => absurd rfl hid
      pending := nofun
      granted := fun id day reserve hg => by
        rw [hbare.grants] at hg
        cases hg
      reads := fun id row hr => by
        rw [hbare.reads] at hr
        cases hr
      closed := fun input row hc => by
        dsimp only at hc
        rw [hc] at hbare
        exact hbare.elim }
  · intro t' other hne hother
    refine ⟨fun _ => .inl rfl, fun _ => .inl rfl, fun id row row' hr => ?_⟩
    rw [hbare.reads] at hr
    cases hr

theorem Db.Sound.abort : (s.step (.abort t)).Sound :=
  { hs with
    txs := fun t₁ tx₁ h₁ => (hs.txs t₁ tx₁ (Table.erase_sub _ _ _ _ h₁)).mono le_rfl
    clear := fun t₁ t₂ tx₁ tx₂ hne h₁ h₂ =>
      hs.clear t₁ t₂ tx₁ tx₂ hne (Table.erase_sub _ _ _ _ h₁) (Table.erase_sub _ _ _ _ h₂) }

end

end Statements

/-! ## The history -/

section History

variable {history : List Entry} {id : Uuid} {n : Int}

theorem charged_cons (e : Entry) (history : List Entry) (day : Day) :
    charged (e :: history) day = (if e.day = day then e.tokens else 0) + charged history day := by
  unfold charged
  by_cases h : e.day = day <;> simp [h]

theorem Entry.report_id (id : Uuid) (n : Int) (e : Entry) : (e.report id n).id = e.id := by
  unfold Entry.report
  split_ifs <;> rfl

theorem Entry.report_day (id : Uuid) (n : Int) (e : Entry) : (e.report id n).day = e.day := by
  unfold Entry.report
  split_ifs <;> rfl

theorem Entry.report_of_ne {e : Entry} (h : e.id ≠ id) : e.report id n = e := if_neg h

theorem report_absent (h : id ∉ history.map Entry.id) :
    history.map (Entry.report id n) = history := by
  conv_rhs => rw [← List.map_id history]
  refine List.map_congr_left fun e he => Entry.report_of_ne fun heq => h ?_
  rw [← heq]
  exact List.mem_map_of_mem he

/-- A report replaces the reservation of its request by the tokens it brings. -/
theorem charged_report {e : Entry} (hids : (history.map Entry.id).Nodup) (he : e ∈ history)
    (hid : e.id = id) (hopen : e.reports = []) (day : Day) :
    charged (history.map (Entry.report id n)) day =
      charged history day + if day = e.day then n - e.reserve else 0 := by
  induction history with
  | nil => cases he
  | cons e₀ rest ih =>
    rw [List.map_cons, List.nodup_cons] at hids
    rw [List.map_cons, charged_cons, charged_cons]
    rcases List.mem_cons.mp he with rfl | he
    · rw [report_absent (by rw [← hid]; exact hids.1)]
      have htokens : (e.report id n).tokens = n := by simp [Entry.report, hid, Entry.tokens, hopen]
      have hreserve : e.tokens = e.reserve := by simp [Entry.tokens, hopen]
      rw [Entry.report_day, hreserve]
      by_cases heq : e.day = day
      · rw [if_pos heq, if_pos heq, if_pos heq.symm]
        omega
      · rw [if_neg heq, if_neg heq, if_neg (Ne.symm heq)]
        omega
    · have hne : e₀.id ≠ id := by
        rintro heq
        refine hids.1 ?_
        rw [heq, ← hid]
        exact List.mem_map_of_mem he
      rw [ih hids.2 he, Entry.report_of_ne hne, add_assoc]

end History

/-! ## Commits -/

section Commits

variable {s : Db} {t : Nat} {tx : Tx} {history : List Entry}

/-- What a commit records, by what the transaction has in hand. -/
theorem recorded_cases (h : s.recorded tx = some history) :
    (tx.phase.Bare ∧ history = s.history) ∨
    (∃ ask reserve id, tx.phase = .granted ask reserve id ∧
      history = s.history ++ [⟨id, ask.day, reserve, ask.dailyRequestQuota, ask.dailyTokenQuota,
        (view s.quota tx.quota ask.day).getD {}, []⟩]) ∨
    ∃ input row, tx.phase = .closed input row ∧
      history = s.history.map (Entry.report input.requestId input.tokens) := by
  rw [recorded] at h
  split at h <;> cases h
  · next hphase => exact .inl ⟨by rw [hphase]; trivial, rfl⟩
  · next hphase => exact .inl ⟨by rw [hphase]; trivial, rfl⟩
  · next ask reserve id hphase => exact .inr (.inl ⟨ask, reserve, id, hphase, rfl⟩)
  · next input row hphase => exact .inr (.inr ⟨input, row, hphase, rfl⟩)

/-- An open transaction after another has committed. -/
theorem Tx.Sound.after_commit {other : Tx} (htx : tx.Sound s) (h : other.Sound s)
    (hclear : tx.Clear other)
    (hids : ∀ e ∈ history, (∃ e' ∈ s.history, e'.id = e.id) ∨ tx.requests e.id ≠ none)
    (hkept : ∀ e ∈ s.history, ∀ id row, other.phase.reads = some (id, row) → e.Of id row →
      ∃ e' ∈ history, e'.Of id row) :
    other.Sound (s.committed t tx history) where
  tokens day := by
    show tokensAt (view (view s.quota tx.quota) other.quota) day =
      tokensAt (view s.quota tx.quota) day + _
    have htokens := h.tokens day
    unfold tokensAt at htokens ⊢
    cases hwrote : other.quota day with
    | none =>
      -- what it did not write it sees as committed, before and after
      rw [view_of_unwritten hwrote] at htokens
      rw [view_of_unwritten hwrote]
      omega
    | some row =>
      have hsame : view s.quota tx.quota day = s.quota day :=
        view_of_unwritten ((hclear.quota day).resolve_right (by rw [hwrote]; exact nofun))
      rw [view_of_written hwrote] at htokens
      rw [view_of_written hwrote, hsame]
      exact htokens
  rows := h.rows
  within := h.within
  fresh := h.fresh
  pending := h.pending
  granted id day reserve hgrants := by
    obtain ⟨hwrote, hnew⟩ := h.granted id day reserve hgrants
    refine ⟨hwrote, fun e he heq => ?_⟩
    subst heq
    rcases hids e he with ⟨e', he', hid⟩ | hother
    · exact hnew e' he' hid
    · exact ((hclear.requests e.id).resolve_left hother ▸ hwrote) rfl
  reads id row hreads := by
    obtain ⟨e, he, hof⟩ := h.reads id row hreads
    exact hkept e he id row hreads hof
  closed input row hphase r hview := by
    cases hwrote : other.requests input.requestId with
    | some r' =>
      rw [view_of_written hwrote] at hview
      subst hview
      exact h.closed input row hphase r (view_of_written hwrote)
    | none =>
      rw [view_of_unwritten hwrote] at hview
      intro hpending
      -- a pending row of a granted request is not one the committed transaction wrote
      cases hwrote' : tx.requests input.requestId with
      | none =>
        have hsame : s.requests input.requestId = some r := by
          rw [← hview]
          exact (view_of_unwritten hwrote').symm
        exact h.closed input row hphase r (by rw [view_of_unwritten hwrote, hsame]) hpending
      | some r' =>
        have hr' : r' = some r := by
          rw [← hview]
          exact (view_of_written hwrote').symm
        subst hr'
        obtain ⟨e, he, hof⟩ := h.reads input.requestId row (by rw [hphase]; rfl)
        have hgrants := htx.pending input.requestId r hwrote' hpending
        exact (htx.granted _ _ _ hgrants).2 e he hof.id_eq

section

variable (hs : s.Sound)
include hs

section

variable (hlookup : s.txs.lookup t = some tx)
include hlookup

/-- A commit is sound when the history it leaves is right for the rows it leaves. -/
theorem Db.Sound.committed
    (hledger : ∀ day, charged history day = charged s.history day + tx.phase.adds day)
    (hdays : ∀ e ∈ history, view s.quota tx.quota e.day ≠ none)
    (honce : ∀ e ∈ history, e.reports.length ≤ 1)
    (hleft : ∀ e ∈ history, e.left.tokens ≤ e.dailyTokenQuota ∧
      e.left.requests ≤ e.dailyRequestQuota)
    (hnodup : (history.map Entry.id).Nodup)
    (hids : ∀ e ∈ history, (∃ e' ∈ s.history, e'.id = e.id) ∨ tx.requests e.id ≠ none)
    (hpending : ∀ id r, view s.requests tx.requests id = some r → r.status = .pending →
      ∃ e ∈ history, e.Of id r)
    (hkept : ∀ e ∈ s.history, ∀ id row, (∀ row', tx.phase.reads ≠ some (id, row')) → e.Of id row →
      ∃ e' ∈ history, e'.Of id row) :
    (s.committed t tx history).Sound := by
  have htx := hs.txs t tx hlookup
  have hopen : ∀ t' other, (s.txs.erase t).lookup t' = some other →
      t ≠ t' ∧ s.txs.lookup t' = some other := by
    intro t' other h
    rw [Table.lookup_erase_if] at h
    split_ifs at h with heq
    exact ⟨Ne.symm heq, h⟩
  exact {
    ledger := fun day => by
      rw [Db.committed, hledger, ← hs.ledger]
      exact htx.tokens day
    days := hdays
    once := honce
    left := hleft
    ids := hnodup
    granted := fun e he => by
      rcases hids e he with ⟨e', he', hid⟩ | hwrote
      · rw [← hid]
        exact hs.granted e' he'
      · exact htx.fresh e.id hwrote
    known := fun id hid => htx.seen hs hid
    pending := hpending
    txs := fun t' other h => by
      -- open transactions are clear of each other's rows
      obtain ⟨hne, h⟩ := hopen t' other h
      have hclear := hs.clear t t' tx other hne hlookup h
      refine htx.after_commit (hs.txs t' other h) hclear hids ?_
      intro e he id row hreads hof
      exact hkept e he id row (fun row' h' => hclear.reads id row' row h' hreads) hof
    clear := fun t₁ t₂ tx₁ tx₂ hne h₁ h₂ =>
      hs.clear t₁ t₂ tx₁ tx₂ hne (hopen t₁ tx₁ h₁).2 (hopen t₂ tx₂ h₂).2 }

theorem Db.Sound.commit_bare (hbare : tx.phase.Bare) : (s.committed t tx s.history).Sound := by
  have htx := hs.txs t tx hlookup
  refine hs.committed hlookup ?_ (fun e he => htx.day_there hs he) hs.once hs.left hs.ids
    (fun e he => .inl ⟨e, he, rfl⟩) ?_ (fun e he id row _ hof => ⟨e, he, hof⟩)
  · intro day
    rw [hbare.adds, add_zero]
  · intro id r hview hpending
    exact htx.seen_pending hs hview hpending hbare.grants

/-- A grant adds its reservation to the history, under the quota it was checked against. -/
theorem Db.Sound.commit_grant {ask : Ask} {reserve : Int} {id : Uuid}
    (hphase : tx.phase = .granted ask reserve id) :
    (s.committed t tx (s.history ++ [⟨id, ask.day, reserve, ask.dailyRequestQuota,
      ask.dailyTokenQuota, (view s.quota tx.quota ask.day).getD {}, []⟩])).Sound := by
  have htx := hs.txs t tx hlookup
  obtain ⟨q, hq, htokens, hrequests⟩ := htx.within ask reserve (by rw [hphase]; rfl)
  have hgrants : tx.phase.grants = some (id, ask.day, reserve) := by rw [hphase]; rfl
  obtain ⟨hwrote, hnew⟩ := htx.granted id ask.day reserve hgrants
  have hview : view s.quota tx.quota ask.day = some q := view_of_written hq
  rw [hview, Option.getD_some]
  refine hs.committed hlookup ?_ ?_ ?_ ?_ ?_ ?_ ?_ ?_
  · intro day
    simp only [hphase, Phase.adds, eq_comm (a := day)]
    by_cases hday : ask.day = day <;> simp [Entry.tokens, charged, hday]
  · rw [List.forall_mem_append, List.forall_mem_singleton]
    refine ⟨fun e he => htx.day_there hs he, ?_⟩
    rw [hview]
    exact nofun
  · rw [List.forall_mem_append, List.forall_mem_singleton]
    exact ⟨hs.once, Nat.zero_le _⟩
  · rw [List.forall_mem_append, List.forall_mem_singleton]
    exact ⟨hs.left, htokens, hrequests⟩
  · rw [List.map_append, List.nodup_append]
    refine ⟨hs.ids, List.nodup_singleton _, ?_⟩
    intro a ha b hb
    obtain ⟨e, he, rfl⟩ := List.mem_map.mp ha
    cases List.mem_singleton.mp hb
    exact hnew e he
  · rw [List.forall_mem_append, List.forall_mem_singleton]
    exact ⟨fun e he => .inl ⟨e, he, rfl⟩, .inr hwrote⟩
  · -- a pending row is an old one, or the one of this grant
    intro id' r hview' hpending
    cases hw : tx.requests id' with
    | none =>
      rw [view_of_unwritten hw] at hview'
      obtain ⟨e, he, hof⟩ := hs.pending id' r hview' hpending
      exact ⟨e, List.mem_append_left _ he, hof⟩
    | some r' =>
      rw [view_of_written hw] at hview'
      subst hview'
      have hthis := htx.pending id' r hw hpending
      rw [hgrants, Option.some.injEq, Prod.mk.injEq, Prod.mk.injEq] at hthis
      obtain ⟨hid, hday, hreserve⟩ := hthis
      exact ⟨_, List.mem_append_right _ (List.mem_singleton_self _), ⟨hid, hday, hreserve, rfl⟩⟩
  · intro e he id' row _ hof
    exact ⟨e, List.mem_append_left _ he, hof⟩

theorem Db.Sound.commit_report {input : UsageInput} {row : Request}
    (hphase : tx.phase = .closed input row) :
    (s.committed t tx (s.history.map (Entry.report input.requestId input.tokens))).Sound := by
  have htx := hs.txs t tx hlookup
  obtain ⟨e, he, hof⟩ := htx.reads input.requestId row (by rw [hphase]; rfl)
  -- the entry of the request is the only one that changes
  have hsole : ∀ e' ∈ s.history, e'.id = input.requestId → e' = e := fun e' he' hid =>
    List.inj_on_of_nodup_map hs.ids he' he (hid.trans hof.id_eq.symm)
  refine hs.committed hlookup ?_ ?_ ?_ ?_ ?_ ?_ ?_ ?_
  · intro day
    rw [charged_report hs.ids he hof.id_eq hof.unreported, hphase, hof.day, hof.reserve]
    rfl
  · rw [List.forall_mem_map]
    intro e' he'
    rw [Entry.report_day]
    exact htx.day_there hs he'
  · rw [List.forall_mem_map]
    intro e' he'
    rw [Entry.report]
    split_ifs with hid
    · rw [hsole e' he' hid]
      simp [hof.unreported]
    · exact hs.once e' he'
  · rw [List.forall_mem_map]
    intro e' he'
    rw [Entry.report]
    split_ifs <;> exact hs.left e' he'
  · rw [List.map_map, List.map_congr_left fun e _ => e.report_id _ _]
    exact hs.ids
  · rw [List.forall_mem_map]
    intro e' he'
    exact .inl ⟨e', he', (e'.report_id _ _).symm⟩
  · intro id r hview hpending
    obtain ⟨e', he', hof'⟩ := htx.seen_pending hs hview hpending (by rw [hphase]; rfl)
    have hne : e'.id ≠ input.requestId := by
      rw [hof'.id_eq]
      rintro rfl
      exact htx.closed input row hphase r hview hpending
    refine ⟨e', ?_, hof'⟩
    rw [← Entry.report_of_ne (n := input.tokens) hne]
    exact List.mem_map_of_mem he'
  · intro e' he' id row' hreads hof'
    have hne : e'.id ≠ input.requestId := by
      rw [hof'.id_eq]
      rintro rfl
      exact hreads row (by rw [hphase]; rfl)
    refine ⟨e', ?_, hof'⟩
    rw [← Entry.report_of_ne (n := input.tokens) hne]
    exact List.mem_map_of_mem he'

end

theorem Db.Sound.commit : (s.step (.commit t)).Sound := by
  rw [Db.step]
  split
  · next tx hlookup =>
    split
    · next history hrecorded =>
      rcases recorded_cases hrecorded with ⟨hbare, rfl⟩ | ⟨ask, reserve, id, hphase, rfl⟩ |
        ⟨input, row, hphase, rfl⟩
      · exact hs.commit_bare hlookup hbare
      · exact hs.commit_grant hlookup hphase
      · exact hs.commit_report hlookup hphase
    · exact hs
  · exact hs

end

/-- The books stay in order, where no report overlaps another of its request. -/
theorem Db.Sound.step (event : Event) (halone : event.alone s) (hs : s.Sound) :
    (s.step event).Sound := by
  cases event with
  | authorize t org => exact hs.begin trivial
  | ingestUsage t input =>
    rw [Db.step]
    split_ifs
    · exact hs.begin trivial
    · exact hs
  | purge t org => exact hs.begin trivial
  | exec t stmt => exact hs.exec halone
  | commit t => exact hs.commit
  | abort t => exact hs.abort

end Commits

/-! ## Every run -/

theorem Db.sound_empty : Sound {} where
  ledger _ := rfl
  days _ he := by cases he
  once _ he := by cases he
  left _ he := by cases he
  ids := List.nodup_nil
  granted _ he := by cases he
  known _ hid := absurd rfl hid
  pending _ _ hr := by cases hr
  txs _ _ h := by cases h
  clear _ _ _ _ _ h := by cases h

/-- Every grant of the day was decided against `quota`, and no report exceeds its reservation. -/
def Settled (history : List Entry) (day : Day) (quota : Int) : Prop :=
  ∀ e ∈ history, e.day = day → e.dailyTokenQuota = quota ∧ ∀ n ∈ e.reports, n ≤ e.reserve

/-- No day is over a quota that did not change. -/
def Db.Bounded (s : Db) : Prop :=
  ∀ day quota, 0 ≤ quota → Settled s.history day quota → tokensAt s.quota day ≤ quota

theorem Entry.mem_report {id : Uuid} {n k : Int} {e : Entry} (h : k ∈ e.reports) :
    k ∈ (e.report id n).reports := by
  unfold Entry.report
  split_ifs
  · exact List.mem_append_left _ h
  · exact h

theorem Settled.of_report {history : List Entry} {id : Uuid} {n : Int} {day : Day} {quota : Int}
    (h : Settled (history.map (Entry.report id n)) day quota) : Settled history day quota := by
  intro e he hday
  obtain ⟨hquota, hreports⟩ := h _ (List.mem_map_of_mem he) (by rw [Entry.report_day, hday])
  have hfields : (e.report id n).dailyTokenQuota = e.dailyTokenQuota ∧
      (e.report id n).reserve = e.reserve := by
    unfold Entry.report
    split_ifs <;> exact ⟨rfl, rfl⟩
  rw [hfields.1] at hquota
  rw [hfields.2] at hreports
  exact ⟨hquota, fun k hk => hreports k (Entry.mem_report hk)⟩

theorem Db.Bounded.commit {s : Db} {t : Nat} {tx : Tx} {history : List Entry} (hs : s.Sound)
    (hlookup : s.txs.lookup t = some tx) (hrecorded : s.recorded tx = some history)
    (h : s.Bounded) : (s.committed t tx history).Bounded := by
  intro day quota hquota hsettled
  have htx := hs.txs t tx hlookup
  have htokens : tokensAt (s.committed t tx history).quota day = _ := htx.tokens day
  rw [htokens]
  rcases recorded_cases hrecorded with ⟨hbare, rfl⟩ | ⟨ask, reserve, id, hphase, rfl⟩ |
    ⟨input, row, hphase, rfl⟩
  · rw [hbare.adds, add_zero]
    exact h day quota hquota hsettled
  · by_cases hday : ask.day = day
    · -- the grant's own condition bounds the day it was made on
      obtain ⟨q, hq, hle, -⟩ := htx.within ask reserve (by rw [hphase]; rfl)
      have hthis := hsettled _ (List.mem_append_right _ (List.mem_singleton_self _)) hday
      rw [← htx.tokens, ← hday, tokensAt_of_eq (view_of_written hq), ← hthis.1]
      exact hle
    · have hadds : tx.phase.adds day = 0 := by
        rw [hphase]
        exact if_neg (Ne.symm hday)
      rw [hadds, add_zero]
      exact h day quota hquota fun e he => hsettled e (List.mem_append_left _ he)
  · have hbound := h day quota hquota hsettled.of_report
    obtain ⟨e, he, hof⟩ := htx.reads input.requestId row (by rw [hphase]; rfl)
    have hadds : tx.phase.adds day ≤ 0 := by
      rw [hphase, Phase.adds]
      split_ifs with hday
      · have hthis := hsettled _ (List.mem_map_of_mem he)
          (by rw [Entry.report_day, hof.day, hday])
        have hle : input.tokens ≤ e.reserve := by
          simpa [Entry.report, hof.id_eq, hof.unreported] using hthis.2
        rw [hof.reserve] at hle
        omega
      · exact le_rfl
    omega

/-- Only a commit changes what the bound speaks of. -/
theorem Db.Bounded.step {s : Db} (event : Event) (hs : s.Sound) (h : s.Bounded) :
    (s.step event).Bounded := by
  cases event with
  | commit t =>
    rw [Db.step]
    split
    · next tx hlookup =>
      split
      · next history hrecorded => exact h.commit hs hlookup hrecorded
      · exact h
    · exact h
  | exec t stmt =>
    rw [Db.step]
    split <;> exact h
  | abort t => exact h
  | authorize t org | purge t org | ingestUsage t input =>
    rw [Db.step, Db.begin]
    split_ifs <;> exact h

/-- The books are in order, and quotas that do not change are kept. -/
def Db.Exact (s : Db) : Prop := s.Sound ∧ s.Bounded

/-- In every run in which no report reads a request that another open report has found pending,
every day counts exactly the reservations that stand and the tokens reported, a request has one
report at most, a grant keeps to its quotas, and a quota that does not change is not exceeded. -/
theorem Db.ledger_exact (events : List Event)
    (h : Along Db.step (fun s event => event.alone s) {} events) :
    (∀ day, tokensAt (run Db.step {} events).quota day =
      charged (run Db.step {} events).history day) ∧
    (∀ e ∈ (run Db.step {} events).history, e.reports.length ≤ 1) ∧
    (∀ e ∈ (run Db.step {} events).history,
      e.left.tokens ≤ e.dailyTokenQuota ∧ e.left.requests ≤ e.dailyRequestQuota) ∧
    ∀ day quota, 0 ≤ quota → Settled (run Db.step {} events).history day quota →
      tokensAt (run Db.step {} events).quota day ≤ quota := by
  have hempty : Exact {} := ⟨sound_empty, fun day quota hquota _ => hquota⟩
  have hinv : (run Db.step {} events).Exact := by
    refine run_invariant_along ?_ h hempty
    intro s event halone hs
    exact ⟨hs.1.step event halone, hs.2.step event hs.1⟩
  exact ⟨hinv.1.ledger, hinv.1.once, hinv.1.left, hinv.2⟩

/-! ### A grant and its reports -/

def chat : Ask := ⟨"shop", 7, (1, "2026-01-01"), 400, some 900, 10, 10000⟩

def usage : UsageInput := ⟨"shop", 7, 3, false, 300, 200⟩

/-- A request is granted, with a reservation of a thousand tokens. -/
def grantChat : List Event :=
  [.authorize 1 "shop", .exec 1 (.insertDay chat), .exec 1 .selectTokens, .exec 1 .reserve,
    .exec 1 (.insertRequest 100), .commit 1]

/-- The second copy of the report comes when the first is settled. -/
theorem ledger_exact_retry :
    let events := grantChat ++
      [.ingestUsage 2 usage, .exec 2 (.selectRequest false), .exec 2 .settle, .exec 2 (.close 110),
        .commit 2, .ingestUsage 3 usage, .exec 3 (.selectRequest false), .abort 3]
    tokensAt (run Db.step {} events).quota chat.day = 500 ∧
      tokensAt (run Db.step {} events).quota chat.day =
        charged (run Db.step {} events).history chat.day := by
  intro events
  exact ⟨by decide +kernel, (ledger_exact events (by decide +kernel)).1 chat.day⟩

/-- The second copy comes while the first is handled: both find the request pending, and its
reservation is released twice. -/
theorem overlapping_reports_settle_twice :
    let events := grantChat ++
      [.ingestUsage 2 usage, .ingestUsage 3 usage, .exec 2 (.selectRequest false),
        .exec 3 (.selectRequest false), .exec 2 .settle, .exec 2 (.close 110), .commit 2,
        .exec 3 .settle, .exec 3 (.close 110), .commit 3]
    tokensAt (run Db.step {} events).quota chat.day = 0 ∧
      (run Db.step {} events).history.map Entry.reports = [[500, 500]] ∧
      charged (run Db.step {} events).history chat.day = 1000 := by
  decide +kernel

end BlakTail.AgentGateway
