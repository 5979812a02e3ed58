import BlakTail.Control.Peer
import BlakTail.Foundation.Transactions

/-!
# Agent Quotas

The coordinator counts the requests and tokens of an agent key by day.  A request is granted
with a reservation of tokens, and the gateway's usage report replaces the reservation by what
was used.  `authorize`, `ingest_usage` and `purge` are transactions whose statements interleave:
a statement sees what is committed and what its own transaction wrote, and waits for rows other
open transactions wrote.

A statement that changes many rows changes them one at a time.  Columns that no counter depends
on (models, usage by model, contents) are left out.
-/

namespace BlakTail.AgentGateway

open Foundation Foundation.Transactions Control

def METADATA_RETENTION_DAYS : Int := 90
def DEFAULT_OUTPUT_TOKENS : Int := 4096
def PENDING_TIMEOUT_SECS : Int := 15 * 60

/-! ## Rows -/

/-- A row of `agent_quota_days`. -/
structure Quota where
  requests : Int := 0
  tokens : Int := 0
  denied : Int := 0
  deriving DecidableEq

/-- Key and day. -/
abbrev Day := Uuid × String

inductive Status where
  | pending
  | ok
  | error
  | abandoned
  deriving DecidableEq

/-- A row of `agent_requests`. -/
structure Request where
  org : String
  day : Day
  gateway : Uuid
  status : Status
  reserved : Int
  startedAt : Int
  expiresAt : Option Int
  deriving DecidableEq

/-! ## Inputs -/

/-- What a grant is decided on: the request and the policy of its key. -/
structure Ask where
  org : String
  gateway : Uuid
  day : Day
  requestBytes : Int
  maxTokens : Option Int
  dailyRequestQuota : Int
  dailyTokenQuota : Int
  deriving DecidableEq

def Ask.promptEstimate (ask : Ask) : Int := (ask.requestBytes + 3) / 4

/-- The output allowance, given the tokens used so far. -/
def Ask.output (ask : Ask) (used : Int) : Int :=
  min ((ask.maxTokens.filter (0 < ·)).getD DEFAULT_OUTPUT_TOKENS)
    (ask.dailyTokenQuota - used - ask.promptEstimate)

/-- The condition of the conditional increment. -/
def Ask.allows (ask : Ask) (reserve : Int) (q : Quota) : Bool :=
  q.requests < ask.dailyRequestQuota && q.tokens + reserve ≤ ask.dailyTokenQuota

structure UsageInput where
  org : String
  gateway : Uuid
  requestId : Uuid
  failed : Bool
  promptTokens : Int
  completionTokens : Int
  deriving DecidableEq

def UsageInput.tokens (input : UsageInput) : Int := input.promptTokens + input.completionTokens

/-- Token counts up to a hundred million. -/
def UsageInput.inRange (input : UsageInput) : Bool :=
  0 ≤ input.promptTokens && input.promptTokens ≤ 100000000 && 0 ≤ input.completionTokens &&
    input.completionTokens ≤ 100000000

/-! ## Transactions -/

/-- How far a transaction has come. -/
inductive Phase where
  | purging (org : String)
  /-- `authorize` purges and looks the key up -/
  | opened (org : String)
  | inserted (ask : Ask)
  | read (ask : Ask) (used : Int)
  | refused
  | reserved (ask : Ask) (reserve : Int)
  | granted (ask : Ask) (reserve : Int) (id : Uuid)
  | counting (day : Day)
  | denied
  /-- `ingest_usage` has begun -/
  | reporting (input : UsageInput)
  | found (input : UsageInput) (request : Request) (off : Bool)
  | settled (input : UsageInput) (request : Request) (off : Bool)
  | closed (input : UsageInput) (request : Request)
  deriving DecidableEq

structure Tx where
  phase : Phase
  quota : Writes Day Quota := fun _ => none
  requests : Writes Uuid Request := fun _ => none

/-- A granted request: its reservation, the quotas it was decided against, the row its grant left
and the tokens of the reports accepted for it. -/
structure Entry where
  id : Uuid
  day : Day
  reserve : Int
  dailyRequestQuota : Int
  dailyTokenQuota : Int
  left : Quota
  reports : List Int := []
  deriving DecidableEq

/-- A report on request `id` is added to its entry. -/
def Entry.report (id : Uuid) (tokens : Int) (e : Entry) : Entry :=
  if e.id = id then { e with reports := e.reports ++ [tokens] } else e

structure Db where
  quota : Rows Day Quota := fun _ => none
  requests : Rows Uuid Request := fun _ => none
  txs : Table Nat Tx := ∅
  history : List Entry := []
  /-- Above every id given out. -/
  next : Uuid := 0

inductive Stmt where
  | expireRow (id : Uuid) (now : Int)
  | abandonRow (id : Uuid) (now : Int)
  | insertDay (ask : Ask)
  | selectTokens
  | reserve
  | insertRequest (now : Int)
  | insertDenial (day : Day)
  | countDenial
  /-- with the key's logging mode: whether it is off -/
  | selectRequest (off : Bool)
  | settle
  | close (now : Int)

inductive Event where
  | authorize (t : Nat) (org : String)
  | ingestUsage (t : Nat) (input : UsageInput)
  | purge (t : Nat) (org : String)
  | exec (t : Nat) (stmt : Stmt)
  | commit (t : Nat)
  | abort (t : Nat)

/-- The organisation whose rows a transaction may purge. -/
def Phase.purges : Phase → Option String
  | .purging org => some org
  | .opened org => some org
  | _ => none

namespace Db

variable (s : Db)

/-- Every other open transaction meets `p`. -/
def others (t : Nat) (p : Tx → Bool) : Bool := s.txs.entries.all fun e => e.1 == t || p e.2

/-- No other open transaction wrote the day. -/
def quotaFree (t : Nat) (day : Day) : Bool := s.others t fun tx => (tx.quota day).isNone

/-- No other open transaction wrote the request. -/
def requestFree (t : Nat) (id : Uuid) : Bool := s.others t fun tx => (tx.requests id).isNone

/-- `INSERT .. ON CONFLICT DO NOTHING` of a day. -/
def ensureDay (t : Nat) (tx : Tx) (day : Day) : Option Tx :=
  if (view s.quota tx.quota day).isSome then some tx
  else if s.quotaFree t day then some { tx with quota := write tx.quota day (some {}) }
  else none

/-- `UPDATE` of a day: it waits for the row, and a missing row is not changed. -/
def updateDay (t : Nat) (tx : Tx) (day : Day) (f : Quota → Quota) : Option Tx :=
  match view s.quota tx.quota day with
  | some q =>
    if s.quotaFree t day then some { tx with quota := write tx.quota day (some (f q)) } else none
  | none => some tx

/-- `UPDATE` or `DELETE` of a request: it waits for the row, and a missing row is not changed. -/
def changeRequest (t : Nat) (tx : Tx) (id : Uuid) (f : Request → Option Request) : Option Tx :=
  match view s.requests tx.requests id with
  | some r =>
    if s.requestFree t id then some { tx with requests := write tx.requests id (f r) } else none
  | none => some tx

/-- One statement of one transaction; `none` when it has to wait or does not apply. -/
def exec (t : Nat) (tx : Tx) : Stmt → Option Tx
  | .expireRow id now => do
    let org ← tx.phase.purges
    let row ← view s.requests tx.requests id
    if row.org = org ∧ row.expiresAt.any (· ≤ now) then s.changeRequest t tx id fun _ => none
    else none
  | .abandonRow id now => do
    let org ← tx.phase.purges
    let row ← view s.requests tx.requests id
    let expires := now + METADATA_RETENTION_DAYS * 86400
    if row.org = org ∧ row.status = .pending ∧ row.startedAt ≤ now - PENDING_TIMEOUT_SECS then
      s.changeRequest t tx id fun r =>
        some { r with status := .abandoned, expiresAt := some expires }
    else none
  | .insertDay ask =>
    match tx.phase with
    | .opened org =>
      if ask.org = org then (s.ensureDay t tx ask.day).map fun tx =>
        { tx with phase := .inserted ask }
      else none
    | _ => none
  | .selectTokens =>
    match tx.phase with
    | .inserted ask => (view s.quota tx.quota ask.day).map fun q =>
      { tx with phase := .read ask q.tokens }
    | _ => none
  | .reserve =>
    match tx.phase with
    | .read ask used =>
      let reserve := ask.promptEstimate + ask.output used
      if ask.output used < 1 then some { tx with phase := .refused }
      else if s.quotaFree t ask.day then
        -- the condition of the `UPDATE` is checked on the row as it is once the lock is held
        match (view s.quota tx.quota ask.day).filter (ask.allows reserve) with
        | some q => some { tx with
            phase := .reserved ask reserve
            quota := write tx.quota ask.day
              (some { q with requests := q.requests + 1, tokens := q.tokens + reserve }) }
        | none => some { tx with phase := .refused }
      else none
    | _ => none
  | .insertRequest now =>
    match tx.phase with
    | .reserved ask reserve =>
      let row := ⟨ask.org, ask.day, ask.gateway, .pending, reserve, now, none⟩
      some { tx with
        phase := .granted ask reserve s.next, requests := write tx.requests s.next (some row) }
    | _ => none
  | .insertDenial day =>
    match tx.phase with
    | .opened _ | .refused => (s.ensureDay t tx day).map fun tx =>
      { tx with phase := .counting day }
    | _ => none
  | .countDenial =>
    match tx.phase with
    | .counting day =>
      (s.updateDay t tx day fun q => { q with denied := q.denied + 1 }).map fun tx =>
        { tx with phase := .denied }
    | _ => none
  | .selectRequest off =>
    match tx.phase with
    | .reporting input => do
      let row ← view s.requests tx.requests input.requestId
      if row.org = input.org ∧ row.gateway = input.gateway ∧ row.status = .pending then
        some { tx with phase := .found input row off }
      else none
    | _ => none
  | .settle =>
    match tx.phase with
    | .found input row off =>
      (s.updateDay t tx row.day fun q =>
          { q with tokens := q.tokens + (input.tokens - row.reserved) }).map fun tx =>
        { tx with phase := .settled input row off }
    | _ => none
  | .close now =>
    match tx.phase with
    | .settled input row off =>
      let status := if input.failed then Status.error else Status.ok
      let expires := now + METADATA_RETENTION_DAYS * 86400
      (s.changeRequest t tx input.requestId fun r =>
          if off then none else some { r with status := status, expiresAt := some expires }).map
        fun tx => { tx with phase := .closed input row }
    | _ => none

/-- What a commit adds to the history: a grant, or an accepted report. -/
def recorded (tx : Tx) : Option (List Entry) :=
  match tx.phase with
  | .purging _ | .denied => some s.history
  | .granted ask reserve id =>
    let left := (view s.quota tx.quota ask.day).getD {}
    some (s.history ++ [⟨id, ask.day, reserve, ask.dailyRequestQuota, ask.dailyTokenQuota,
      left, []⟩])
  | .closed input _ => some (s.history.map (Entry.report input.requestId input.tokens))
  | _ => none

/-- The state once a transaction has committed. -/
def committed (t : Nat) (tx : Tx) (history : List Entry) : Db :=
  { s with
    quota := view s.quota tx.quota
    requests := view s.requests tx.requests
    txs := s.txs.erase t
    history := history }

def begin (t : Nat) (phase : Phase) : Db :=
  if (s.txs.lookup t).isSome then s else { s with txs := s.txs.insert t { phase := phase } }

/-- Beginning, executing, committing and aborting. -/
def step : Event → Db
  | .authorize t org => s.begin t (.opened org)
  | .ingestUsage t input => if input.inRange then s.begin t (.reporting input) else s
  | .purge t org => s.begin t (.purging org)
  | .exec t stmt =>
    match (s.txs.lookup t).bind fun tx => s.exec t tx stmt with
    | some tx => { s with txs := s.txs.insert t tx, next := s.next + 1 }
    | none => s
  | .commit t =>
    match s.txs.lookup t with
    | some tx =>
      match s.recorded tx with
      | some history => s.committed t tx history
      | none => s
    | none => s
  | .abort t => { s with txs := s.txs.erase t }

end Db

/-! ## What is counted -/

/-- The tokens of a day; a missing row counts nothing. -/
def tokensAt (rows : Rows Day Quota) (day : Day) : Int := ((rows day).map Quota.tokens).getD 0

/-- The tokens a granted request stands for: its reservation until a report closes it. -/
def Entry.tokens (e : Entry) : Int := if e.reports = [] then e.reserve else e.reports.sum

/-- The tokens the history comes to for a day. -/
def charged (history : List Entry) (day : Day) : Int :=
  ((history.filter fun e => e.day = day).map Entry.tokens).sum

end BlakTail.AgentGateway
