import BlakTail.Access.Model
import BlakTail.Control.Peer
import BlakTail.Foundation.Fallible

/-!
# Remote Jobs

A run of a job template is requested, approved and signed at the coordinator, offered to the
agent of its device, claimed and executed there.

Signatures are ideal: a signature says which key signed which payload.  A coordinator that cannot
be trusted is one that offers any payload ever signed and accepts every claim.
-/

namespace BlakTail.Remote

open Foundation Control Access

def JOB_CLAIM_WINDOW_SECS : Int := 10 * 60
def MAX_TIMEOUT_SECS : Int := 10 * 60
def MAX_OUTPUT_BYTES : Int := 64 * 1024

/-! ## Signed jobs -/

structure SignedJob where
  runId : Uuid
  orgId : Uuid
  nodeId : Uuid
  argv : List String
  timeoutSecs : Int
  outputCapBytes : Int
  expiresAt : Int
  deriving DecidableEq

structure Signature where
  key : String
  payload : SignedJob
  deriving DecidableEq

/-- A job as the coordinator offers it: the id beside the payload is not signed. -/
structure AgentJob where
  runId : Uuid
  payload : SignedJob
  signature : Signature
  deriving DecidableEq

def signJob (key : String) (job : SignedJob) : SignedJob × Signature := (job, ⟨key, job⟩)

/-! ## The coordinator -/

inductive RunStatus where
  | pendingApproval
  | approved
  | rejected
  | running
  | succeeded
  | failed
  | timedOut
  | outputCapped
  | cancelled
  | error
  deriving DecidableEq

def JOB_END_STATES : List RunStatus :=
  [.succeeded, .failed, .timedOut, .outputCapped, .cancelled, .error]

structure RunRow where
  nodeId : Uuid
  argv : List String
  timeoutSecs : Int
  outputCapBytes : Int
  status : RunStatus := .pendingApproval
  decidedAt : Int := 0
  claimExpiresAt : Option Int := none
  cancelRequestedAt : Option Int := none
  signature : Option (Signature × SignedJob) := none
  deriving DecidableEq

/-- An entry of the audit log about a run. -/
inductive Audit where
  | requested (run : Uuid)
  | approved (role : Role) (payload : SignedJob)
  | rejected (run : Uuid)
  | cancelRequested (run : Uuid)
  | started (run : Uuid)
  | finished (run : Uuid)
  deriving DecidableEq

/-- An `approve_run` that has signed and not written so far. -/
structure Approval where
  role : Role
  payload : SignedJob
  signature : Signature

/-- The run rows, approvals under way, every signature made, the audit log. -/
structure Coordinator where
  rows : Table Uuid RunRow := ∅
  approvals : Table Nat Approval := ∅
  signed : List Signature := []
  audit : List Audit := []

/-- An organisation, the device of the agent and the organisation's job key. -/
structure Site where
  orgId : Uuid
  nodeId : Uuid
  key : String

namespace Coordinator

variable (c : Coordinator)

/-- A conditional `UPDATE` of one run and its audit entry; `none` when no row is changed. -/
def updateRun (run : Uuid) (p : RunRow → Bool) (f : RunRow → RunRow) (entry : Audit) :
    Option Coordinator :=
  match c.rows.lookup run with
  | some r =>
    if p r then some { c with rows := c.rows.insert run (f r), audit := c.audit ++ [entry] }
    else none
  | none => none

/-- `request_run` for a template and a device that pass its checks; the id is new. -/
def requestRun (role : Role) (run : Uuid) (row : RunRow) : Option Coordinator :=
  if role.can .useRemoteSessions && (c.rows.lookup run).isNone then
    some { c with
      rows := c.rows.insert run ⟨row.nodeId, row.argv, row.timeoutSecs, row.outputCapBytes,
        .pendingApproval, 0, none, none, none⟩
      audit := c.audit ++ [.requested run] }
  else none

/-- `approve_run` up to the signature. -/
def approveRun (site : Site) (call : Nat) (role : Role) (run : Uuid) (enabled : Bool) (now : Int) :
    Option Coordinator :=
  match c.rows.lookup run with
  | some r =>
    if role.can .manageRemoteJobs && r.status = .pendingApproval && enabled then
      let (payload, signature) := signJob site.key
        ⟨run, site.orgId, r.nodeId, r.argv, r.timeoutSecs, r.outputCapBytes,
          now + JOB_CLAIM_WINDOW_SECS⟩
      some { c with
        approvals := c.approvals.insert call ⟨role, payload, signature⟩
        signed := c.signed ++ [signature] }
    else none
  | none => none

/-- The rest of `approve_run`. -/
def storeApproval (call : Nat) (now : Int) : Option Coordinator :=
  match c.approvals.lookup call with
  | some a =>
    c.updateRun a.payload.runId (fun r => r.status = .pendingApproval)
      (fun r => { r with
        status := .approved
        decidedAt := now
        claimExpiresAt := some a.payload.expiresAt
        signature := some (a.signature, a.payload) })
      (.approved a.role a.payload)
  | none => none

def rejectRun (role : Role) (run : Uuid) (now : Int) : Option Coordinator :=
  if role.can .manageRemoteJobs then
    c.updateRun run (fun r => r.status = .pendingApproval)
      (fun r => { r with status := .rejected, decidedAt := now }) (.rejected run)
  else none

/-- Not claimed so far: cancel outright.  Running: the agent stops it at its next check. -/
def cancelRun (role : Role) (run : Uuid) (now : Int) : Option Coordinator :=
  if role.can .useRemoteSessions then
    (c.updateRun run (fun r => r.status = .pendingApproval || r.status = .approved)
        (fun r => { r with status := .cancelled, cancelRequestedAt := some now })
        (.cancelRequested run)).or
      (c.updateRun run (fun r => r.status = .running && r.cancelRequestedAt.isNone)
        (fun r => { r with cancelRequestedAt := some now }) (.cancelRequested run))
  else none

def pendingJobs (site : Site) (now : Int) : List AgentJob :=
  let rows := c.rows.entries.filter fun e =>
    e.2.nodeId = site.nodeId && e.2.status = .approved && e.2.claimExpiresAt.any (now < ·)
  let rows := (rows.insertionSort fun a b => a.2.decidedAt ≤ b.2.decidedAt).take 10
  rows.filterMap fun e => e.2.signature.map fun s => ⟨e.1, s.2, s.1⟩

def claimJob (site : Site) (run : Uuid) (now : Int) : Option Coordinator :=
  c.updateRun run
    (fun r => r.nodeId = site.nodeId && r.status = .approved && r.claimExpiresAt.any (now < ·))
    (fun r => { r with status := .running }) (.started run)

def jobResult (site : Site) (run : Uuid) (status : RunStatus) (outputBytes : Int) :
    Option Coordinator :=
  if status ∈ JOB_END_STATES then
    c.updateRun run
      (fun r => r.nodeId = site.nodeId && r.status = .running && outputBytes ≤ r.outputCapBytes)
      (fun r => { r with status := status }) (.finished run)
  else none

end Coordinator

/-! ## The agent -/

/-- The bounds of a job, checked against the pinned key and the device. -/
def verifyJob (pinned : String) (nodeId : Uuid) (payload : SignedJob) (signature : Signature)
    (now : Int) : Except String SignedJob := do
  failIf (signature ≠ ⟨pinned, payload⟩) "job signature does not verify"
  failIf (payload.nodeId ≠ nodeId) "job is for another device"
  failIf (payload.expiresAt ≤ now) "job approval has expired"
  failIf (payload.argv.head?.all fun program => program.toList.head? ≠ some '/')
    "job program must be an absolute path"
  failIf (¬(1 ≤ payload.timeoutSecs ∧ payload.timeoutSecs ≤ MAX_TIMEOUT_SECS) ∨
      ¬(1 ≤ payload.outputCapBytes ∧ payload.outputCapBytes ≤ MAX_OUTPUT_BYTES))
    "job limits are out of range"
  return payload

/-- The key to check with: the pinned one, or the published one on first use. -/
def pinnedKey (pin : Option String) (published : String) : Except String String :=
  match pin with
  | some pinned =>
    if Text.trim pinned = published then .ok published
    else .error "the coordinator's job signing key changed"
  | none =>
    if published ≠ "" then .ok published
    else .error "the coordinator has not published a job signing key"

/-- The ledger with the run added until its signed expiry; `none` for a run already seen. -/
def rememberRun (runs : Table Uuid Int) (run : Uuid) (expiresAt now : Int) :
    Option (Table Uuid Int) :=
  let runs := runs.retain fun _ expires => now < expires
  if (runs.lookup run).isSome then none else some (runs.insert run expiresAt)

/-- Where `poll_once` stands.  A crash or an error loses it. -/
inductive Task where
  | idle
  | polling (n : Nat) (pinned : String)
  | working (pinned : String) (jobs : List AgentJob)
  | claiming (n : Nat) (pinned : String) (job : SignedJob) (verifiedAt : Int) (jobs : List AgentJob)
  | running (pinned : String) (jobs : List AgentJob)

/-- A job that was executed: when it was verified and which claim let it run. -/
structure Execution where
  job : SignedJob
  verifiedAt : Int
  claim : Nat
  deriving DecidableEq

/-! ## Both sides -/

/-- Both sides, with requests and answers that may be lost, handled twice or late. -/
structure World where
  coord : Coordinator := {}
  pin : Option String := none
  runs : Table Uuid Int := ∅
  task : Task := .idle
  /-- The agent's clock when it was last read. -/
  clock : Int := 0
  /-- Number of the next request of the agent. -/
  next : Nat := 0
  /-- Answers to polls, by the poll's number. -/
  offers : List (Nat × List AgentJob) := []
  /-- Claims sent. -/
  claims : Table Nat Uuid := ∅
  /-- Answers to claims; a claim may be handled more than once. -/
  answers : List (Nat × Bool) := []
  executed : List Execution := []

inductive Event where
  | request (role : Role) (run : Uuid) (row : RunRow)
  | approve (call : Nat) (role : Role) (run : Uuid) (enabled : Bool) (now : Int)
  | store (call : Nat) (now : Int)
  | reject (role : Role) (run : Uuid) (now : Int)
  | cancel (role : Role) (run : Uuid) (now : Int)
  | result (run : Uuid) (status : RunStatus) (outputBytes : Int)
  /-- The agent polls, with the key of its last peer map. -/
  | poll (published : String)
  | handlePoll (n : Nat) (now : Int)
  | receiveOffers (jobs : List AgentJob)
  /-- The next job of the answer, at a time of the agent's clock. -/
  | job (now : Int)
  | handleClaim (n : Nat) (now : Int)
  | receiveClaim (accepted : Bool)
  | finished
  /-- A crash, or an error that ends the poll. -/
  | stop
  /-- The coordinator offers payloads that were signed at any time. -/
  | replay (jobs : List AgentJob)
  /-- The coordinator accepts the claim whatever the run's status. -/
  | acceptClaim

namespace World

variable (site : Site) (w : World)

def coordDo (c : Option Coordinator) : World :=
  match c with
  | some c => { w with coord := c }
  | none => w

/-- One job of the loop in `poll_once`, up to the claim's request. -/
def nextJob (now : Int) : World :=
  match w.task with
  | .working pinned (a :: jobs) =>
    match verifyJob pinned site.nodeId a.payload a.signature now with
    | .ok job =>
      if job.runId = a.runId then
        match rememberRun w.runs job.runId job.expiresAt now with
        | some runs => { w with
            clock := now
            runs := runs
            claims := w.claims.insert w.next job.runId
            next := w.next + 1
            task := .claiming w.next pinned job now jobs }
        | none => { w with clock := now, task := .working pinned jobs }
      else { w with clock := now, task := .working pinned jobs }
    | .error _ => { w with clock := now, task := .working pinned jobs }
  | .working _ [] => { w with task := .idle }
  | _ => w

def claimed (accepted : Bool) : World :=
  match w.task with
  | .claiming n pinned job verifiedAt jobs =>
    if accepted then
      { w with executed := w.executed ++ [⟨job, verifiedAt, n⟩], task := .running pinned jobs }
    else { w with task := .working pinned jobs }
  | _ => w

/-- One event, a crash of the agent among them. -/
def step : Event → World
  | .request role run row => w.coordDo (w.coord.requestRun role run row)
  | .approve call role run enabled now =>
    w.coordDo (w.coord.approveRun site call role run enabled now)
  | .store call now => w.coordDo (w.coord.storeApproval call now)
  | .reject role run now => w.coordDo (w.coord.rejectRun role run now)
  | .cancel role run now => w.coordDo (w.coord.cancelRun role run now)
  | .result run status outputBytes => w.coordDo (w.coord.jobResult site run status outputBytes)
  | .poll published =>
    match w.task, pinnedKey w.pin published with
    | .idle, .ok key => { w with
        pin := some (w.pin.getD published), next := w.next + 1, task := .polling w.next key }
    | _, _ => w
  | .handlePoll n now =>
    if n < w.next then { w with offers := w.offers ++ [(n, w.coord.pendingJobs site now)] } else w
  | .receiveOffers jobs =>
    match w.task with
    | .polling n pinned =>
      if (n, jobs) ∈ w.offers then { w with task := .working pinned jobs } else w
    | _ => w
  | .job now => w.nextJob site now
  | .handleClaim n now =>
    match w.claims.lookup n with
    | some run =>
      match w.coord.claimJob site run now with
      | some c => { w with coord := c, answers := w.answers ++ [(n, true)] }
      | none => { w with answers := w.answers ++ [(n, false)] }
    | none => w
  | .receiveClaim accepted =>
    match w.task with
    | .claiming n .. => if (n, accepted) ∈ w.answers then w.claimed accepted else w
    | _ => w
  | .finished =>
    match w.task with
    | .running pinned jobs => { w with task := .working pinned jobs }
    | _ => w
  | .stop => { w with task := .idle }
  | .replay jobs =>
    match w.task with
    | .polling _ pinned =>
      if ∀ a ∈ jobs, a.signature ∈ w.coord.signed then
        { w with task := .working pinned jobs }
      else w
    | _ => w
  | .acceptClaim => w.claimed true

end World

end BlakTail.Remote
