import BlakTail.Remote.Jobs

/-!
# Remote Jobs Run as Approved, Once

With a coordinator that follows its handlers, what the agent executes was approved by an owner,
and the database lets every run be claimed once.  With one that offers any signed payload again
and accepts every claim, the agent's own ledger has to do: it keeps a run until the expiry that
was signed, so it is enough as long as one payload is signed for each run.
-/

namespace BlakTail.Remote

open Foundation Control Access

/-! ## Rows only move on -/

/-- What never changes in a row: the job, and the signature once there is one. -/
structure RunRow.Keeps (r r' : RunRow) : Prop where
  nodeId : r'.nodeId = r.nodeId
  argv : r'.argv = r.argv
  timeoutSecs : r'.timeoutSecs = r.timeoutSecs
  outputCapBytes : r'.outputCapBytes = r.outputCapBytes
  signature : ∀ s, r.signature = some s → r'.signature = some s

theorem RunRow.Keeps.refl (r : RunRow) : r.Keeps r := ⟨rfl, rfl, rfl, rfl, fun _ h => h⟩

/-- The payload is the row's job. -/
structure RunRow.Describes (r : RunRow) (run : Uuid) (payload : SignedJob) : Prop where
  runId : payload.runId = run
  nodeId : payload.nodeId = r.nodeId
  argv : payload.argv = r.argv
  timeoutSecs : payload.timeoutSecs = r.timeoutSecs
  outputCapBytes : payload.outputCapBytes = r.outputCapBytes

theorem RunRow.Describes.keeps {r r' : RunRow} {run : Uuid} {payload : SignedJob}
    (h : r.Describes run payload) (hkeeps : r.Keeps r') : r'.Describes run payload :=
  ⟨h.runId, h.nodeId.trans hkeeps.nodeId.symm, h.argv.trans hkeeps.argv.symm,
    h.timeoutSecs.trans hkeeps.timeoutSecs.symm,
    h.outputCapBytes.trans hkeeps.outputCapBytes.symm⟩

namespace Coordinator

/-- Rows move on, signatures and audit entries stay. -/
structure Grows (c c' : Coordinator) : Prop where
  rows : ∀ run r, c.rows.lookup run = some r → ∃ r', c'.rows.lookup run = some r' ∧ r.Keeps r'
  signed : ∀ s ∈ c.signed, s ∈ c'.signed
  audit : c.audit <+: c'.audit

end Coordinator

open Coordinator

/-- The run that an entry takes out of the hands of approval and claim. -/
def Audit.closes : Audit → Option Uuid
  | .rejected run | .cancelRequested run | .started run => some run
  | _ => none

/-! ## The handlers -/

/-- A row against the audit log and the signatures made. -/
structure RunRow.Sound (site : Site) (audit : List Audit) (signed : List Signature) (run : Uuid)
    (r : RunRow) : Prop where
  signature : ∀ g p, r.signature = some (g, p) → g = ⟨site.key, p⟩ ∧ g ∈ signed ∧ r.Describes run p
  pending : r.status = .pendingApproval → r.signature = none
  approved : r.status = .approved → ∃ g p, r.signature = some (g, p) ∧ .approved .owner p ∈ audit
  untouched : r.status = .pendingApproval ∨ r.status = .approved → ∀ e ∈ audit, e.closes ≠ some run

/-- An approval under way, against the rows. -/
structure Approval.Sound (site : Site) (c : Coordinator) (a : Approval) : Prop where
  role : a.role = .owner
  signature : a.signature = ⟨site.key, a.payload⟩
  signed : a.signature ∈ c.signed
  row : ∃ r, c.rows.lookup a.payload.runId = some r ∧ r.Describes a.payload.runId a.payload

/-- What the handlers keep. -/
structure Coordinator.Sound (site : Site) (c : Coordinator) : Prop where
  rows : ∀ run r, c.rows.lookup run = some r → r.Sound site c.audit c.signed run
  unknown : ∀ run, c.rows.lookup run = none → ∀ e ∈ c.audit, e.closes ≠ some run
  approvals : ∀ call a, c.approvals.lookup call = some a → a.Sound site c

/-- A handler keeps the invariant and signs nothing. -/
def Coordinator.Handles (c : Coordinator) (site : Site) (c' : Coordinator) : Prop :=
  c.Grows c' ∧ c'.Sound site ∧ c'.signed = c.signed

section Handlers

variable {site : Site} {c c' : Coordinator} {run : Uuid} {p : RunRow → Bool} {f : RunRow → RunRow}
  {entry : Audit}

theorem RunRow.Sound.mono {audit audit' : List Audit} {signed signed' : List Signature} {r : RunRow}
    (h : r.Sound site audit signed run) (hsigned : ∀ g ∈ signed, g ∈ signed')
    (haudit : ∀ e ∈ audit, e ∈ audit')
    (hnew : ∀ e ∈ audit', e ∈ audit ∨ e.closes ≠ some run) : r.Sound site audit' signed' run where
  signature g p hg := by
    obtain ⟨hkey, hmem, hdesc⟩ := h.signature g p hg
    exact ⟨hkey, hsigned g hmem, hdesc⟩
  pending := h.pending
  approved hstatus := by
    obtain ⟨g, p, hg, hmem⟩ := h.approved hstatus
    exact ⟨g, p, hg, haudit _ hmem⟩
  untouched hstatus e he := (hnew e he).elim (h.untouched hstatus e) id

theorem Approval.Sound.mono {a : Approval} (h : a.Sound site c) (hgrows : c.Grows c') :
    a.Sound site c' where
  role := h.role
  signature := h.signature
  signed := hgrows.signed _ h.signed
  row := by
    obtain ⟨r, hr, hdesc⟩ := h.row
    obtain ⟨r', hr', hkeeps⟩ := hgrows.rows _ r hr
    exact ⟨r', hr', hdesc.keeps hkeeps⟩

namespace Coordinator

theorem updateRun_cases (h : c.updateRun run p f entry = some c') :
    ∃ r, c.rows.lookup run = some r ∧ p r ∧
      c' = { c with rows := c.rows.insert run (f r), audit := c.audit ++ [entry] } := by
  unfold updateRun at h
  split at h
  · next r hr =>
    split_ifs at h with hp
    cases h
    exact ⟨r, hr, hp, rfl⟩
  · cases h

/-- What a handler has to show of the one row it changes. -/
theorem Sound.updateRun (hs : c.Sound site) (h : c.updateRun run p f entry = some c')
    (hclose : ∀ run', entry.closes = some run' → run' = run)
    (hkeeps : ∀ r, c.rows.lookup run = some r → p r → r.Keeps (f r))
    (hrow : ∀ r, c.rows.lookup run = some r → p r →
      (f r).Sound site (c.audit ++ [entry]) c.signed run) :
    c.Handles site c' := by
  obtain ⟨r, hr, hp, rfl⟩ := updateRun_cases h
  have hgrows : c.Grows 
      { c with rows := c.rows.insert run (f r), audit := c.audit ++ [entry] } := by
    refine ⟨fun run' r' hr' => ?_, fun _ hg => hg, List.prefix_append _ _⟩
    by_cases heq : run' = run
    · subst heq
      rw [hr] at hr'
      cases hr'
      exact ⟨f r, by rw [Table.lookup_insert_if, if_pos rfl], hkeeps r hr hp⟩
    · exact ⟨r', by rw [Table.lookup_insert_if, if_neg heq, hr'], .refl r'⟩
  refine ⟨hgrows, ⟨?_, ?_, fun call a ha => (hs.approvals call a ha).mono hgrows⟩, rfl⟩
  · intro run' r' hr'
    rw [Table.lookup_insert_if] at hr'
    split_ifs at hr' with heq
    · cases hr'
      rw [heq]
      exact hrow r hr hp
    · refine (hs.rows run' r' hr').mono (fun _ hg => hg) (fun e he => List.mem_append_left _ he) ?_
      intro e he
      rcases List.mem_append.mp he with he | he
      · exact .inl he
      · rw [List.mem_singleton.mp he]
        exact .inr fun hc => heq (hclose run' hc)
  · intro run' hnone e he
    rw [Table.lookup_insert_if] at hnone
    split_ifs at hnone with heq
    rcases List.mem_append.mp he with he | he
    · exact hs.unknown run' hnone e he
    · rw [List.mem_singleton.mp he]
      exact fun hc => heq (hclose run' hc)

/-- A handler that moves a row out of the hands of approval and claim, or keeps it out. -/
theorem Sound.updateStatus (hs : c.Sound site) (h : c.updateRun run p f entry = some c')
    (hclose : ∀ run', entry.closes = some run' → run' = run)
    (hf : ∀ r, p r → (f r).status ≠ .pendingApproval ∧ (f r).status ≠ .approved ∧ r.Keeps (f r) ∧
      (f r).signature = r.signature) :
    c.Handles site c' := by
  refine hs.updateRun h hclose (fun r _ hp => (hf r hp).2.2.1) fun r hr hp => ?_
  obtain ⟨hpending, happroved, hkeeps, hsig⟩ := hf r hp
  exact {
    signature := fun g q hg => by
      rw [hsig] at hg
      obtain ⟨hkey, hmem, hdesc⟩ := (hs.rows run r hr).signature g q hg
      exact ⟨hkey, hmem, hdesc.keeps hkeeps⟩
    pending := fun hstatus => absurd hstatus hpending
    approved := fun hstatus => absurd hstatus happroved
    untouched := fun hstatus => (hstatus.elim hpending happroved).elim }

variable {role : Role} {call : Nat} {now : Int}

theorem Sound.requestRun (hs : c.Sound site) {row : RunRow}
    (h : c.requestRun role run row = some c') : c.Handles site c' := by
  unfold Coordinator.requestRun at h
  split_ifs at h with hcond
  cases h
  rw [Bool.and_eq_true, Option.isNone_iff_eq_none] at hcond
  have hnone := hcond.2
  have hold : ∀ run' r', c.rows.lookup run' = some r' → run' ≠ run := by
    rintro run' r' hr' rfl
    rw [hnone] at hr'
    cases hr'
  have hrequested : ∀ run', ∀ e ∈ c.audit ++ [Audit.requested run],
      e ∈ c.audit ∨ e.closes ≠ some run' := by
    intro run' e he
    rcases List.mem_append.mp he with he | he
    · exact .inl he
    · rw [List.mem_singleton.mp he]
      exact .inr nofun
  have hgrows : c.Grows { c with
      rows := c.rows.insert run ⟨row.nodeId, row.argv, row.timeoutSecs, row.outputCapBytes,
        .pendingApproval, 0, none, none, none⟩
      audit := c.audit ++ [.requested run] } := by
    refine ⟨fun run' r' hr' => ?_, fun _ hg => hg, List.prefix_append _ _⟩
    exact ⟨r', by rw [Table.lookup_insert_if, if_neg (hold run' r' hr'), hr'], .refl r'⟩
  refine ⟨hgrows, ⟨?_, ?_, fun call a ha => (hs.approvals call a ha).mono hgrows⟩, rfl⟩
  · intro run' r' hr'
    rw [Table.lookup_insert_if] at hr'
    split_ifs at hr' with heq
    · cases hr'
      refine ⟨fun g q hg => (by cases hg), fun _ => rfl, nofun, fun _ e he => ?_⟩
      rcases hrequested run' e he with he | hne
      · exact hs.unknown run' (by rw [heq]; exact hnone) e he
      · exact hne
    · exact (hs.rows run' r' hr').mono (fun _ hg => hg) (fun e he => List.mem_append_left _ he)
        (hrequested run')
  · intro run' hnone' e he
    rw [Table.lookup_insert_if] at hnone'
    split_ifs at hnone' with heq
    exact (hrequested run' e he).elim (hs.unknown run' hnone' e) id

theorem approveRun_cases {enabled : Bool}
    (h : c.approveRun site call role run enabled now = some c') :
    ∃ r payload, c.rows.lookup run = some r ∧ role = .owner ∧ r.Describes run payload ∧
      c' = { c with
        approvals := c.approvals.insert call ⟨role, payload, ⟨site.key, payload⟩⟩
        signed := c.signed ++ [⟨site.key, payload⟩] } := by
  unfold approveRun at h
  split at h
  · next r hr =>
    split_ifs at h with hcond
    cases h
    refine ⟨r, _, hr, ?_, ⟨rfl, rfl, rfl, rfl, rfl⟩, rfl⟩
    -- the permission is the owner's alone
    rw [Bool.and_eq_true, Bool.and_eq_true] at hcond
    cases role <;> first | rfl | exact absurd hcond.1.1 (by decide)
  · cases h

section

variable (hs : c.Sound site)
include hs

theorem Sound.approveRun {enabled : Bool}
    (h : c.approveRun site call role run enabled now = some c') :
    c.Grows c' ∧ c'.Sound site := by
  obtain ⟨r, payload, hr, hrole, hdesc, rfl⟩ := approveRun_cases h
  have hgrows : c.Grows { c with
      approvals := c.approvals.insert call ⟨role, payload, ⟨site.key, payload⟩⟩
      signed := c.signed ++ [⟨site.key, payload⟩] } :=
    ⟨fun run' r' hr' => ⟨r', hr', .refl r'⟩, fun g hg => List.mem_append_left _ hg, List.prefix_rfl⟩
  refine ⟨hgrows, fun run' r' hr' => ?_, hs.unknown, fun call' a ha => ?_⟩
  · exact (hs.rows run' r' hr').mono hgrows.signed (fun _ he => he) fun e he => .inl he
  · rw [Table.lookup_insert_if] at ha
    split_ifs at ha
    · cases ha
      refine ⟨hrole, rfl, List.mem_append_right _ (List.mem_singleton_self _), r, ?_, ?_⟩
      · rw [hdesc.runId]
        exact hr
      · rw [hdesc.runId]
        exact hdesc
    · exact (hs.approvals call' a ha).mono hgrows

theorem Sound.storeApproval (h : c.storeApproval call now = some c') :
    c.Handles site c' := by
  unfold Coordinator.storeApproval at h
  split at h
  case h_2 => cases h
  case h_1 a ha =>
    have happroval := hs.approvals call a ha
    refine hs.updateRun h nofun ?_ ?_
    · intro r hr hp
      refine ⟨rfl, rfl, rfl, rfl, fun s hs' => ?_⟩
      rw [(hs.rows _ r hr).pending (by simpa using hp)] at hs'
      cases hs'
    · intro r hr hp
      obtain ⟨r', hr', hdesc⟩ := happroval.row
      rw [hr] at hr'
      cases hr'
      refine ⟨fun g q hg => ?_, nofun, fun _ => ⟨_, _, rfl, ?_⟩, fun _ e he => ?_⟩
      · cases hg
        exact ⟨happroval.signature, happroval.signed,
          hdesc.runId, hdesc.nodeId, hdesc.argv, hdesc.timeoutSecs, hdesc.outputCapBytes⟩
      · rw [← happroval.role]
        exact List.mem_append_right _ (List.mem_singleton_self _)
      · rcases List.mem_append.mp he with he | he
        · exact (hs.rows _ r hr).untouched (.inl (by simpa using hp)) e he
        · rw [List.mem_singleton.mp he]
          exact nofun

theorem Sound.rejectRun (h : c.rejectRun role run now = some c') :
    c.Handles site c' := by
  unfold Coordinator.rejectRun at h
  split_ifs at h
  refine hs.updateStatus h (fun run' hc => by cases hc; rfl) fun r _ => ?_
  exact ⟨nofun, nofun, ⟨rfl, rfl, rfl, rfl, fun _ h => h⟩, rfl⟩

theorem Sound.cancelRun (h : c.cancelRun role run now = some c') :
    c.Handles site c' := by
  unfold Coordinator.cancelRun at h
  split_ifs at h
  rcases Option.or_eq_some_iff.mp h with h | ⟨-, h⟩
  · refine hs.updateStatus h (fun run' hc => by cases hc; rfl) fun r _ => ?_
    exact ⟨nofun, nofun, ⟨rfl, rfl, rfl, rfl, fun _ h => h⟩, rfl⟩
  · refine hs.updateStatus h (fun run' hc => by cases hc; rfl) fun r hp => ?_
    have hrunning : r.status = .running := by
      rw [Bool.and_eq_true] at hp
      simpa using hp.1
    rw [hrunning]
    exact ⟨nofun, nofun, ⟨rfl, rfl, rfl, rfl, fun _ h => h⟩, rfl⟩

theorem Sound.claimJob (h : c.claimJob site run now = some c') :
    c.Handles site c' := by
  refine hs.updateStatus h (fun run' hc => by cases hc; rfl) fun r _ => ?_
  exact ⟨nofun, nofun, ⟨rfl, rfl, rfl, rfl, fun _ h => h⟩, rfl⟩

theorem Sound.jobResult {status : RunStatus} {outputBytes : Int}
    (h : c.jobResult site run status outputBytes = some c') :
    c.Handles site c' := by
  unfold Coordinator.jobResult at h
  split_ifs at h with hend
  refine hs.updateStatus h nofun fun r _ => ?_
  refine ⟨?_, ?_, ⟨rfl, rfl, rfl, rfl, fun _ h => h⟩, rfl⟩
  all_goals
    rintro rfl
    exact absurd hend (by decide)

end

theorem sound_empty : Sound site {} :=
  ⟨fun _ _ h => (by cases h), fun _ _ _ he => (by cases he), fun _ _ h => (by cases h)⟩

end Coordinator

/-- Offers come from approved rows. -/
theorem Coordinator.mem_pendingJobs {now : Int} {a : AgentJob} (h : a ∈ c.pendingJobs site now) :
    ∃ r, c.rows.lookup a.runId = some r ∧ r.signature = some (a.signature, a.payload) := by
  obtain ⟨⟨run, r⟩, hmem, hmap⟩ := List.mem_filterMap.mp h
  obtain ⟨⟨g, payload⟩, hsig, rfl⟩ := Option.map_eq_some_iff.mp hmap
  have hrow := (List.mem_filter.mp ((List.mem_insertionSort _).mp (List.mem_of_mem_take hmem))).1
  exact ⟨r, Table.lookup_eq_some_iff.mpr hrow, hsig⟩

end Handlers

/-! ## What an event can do -/

/-- The jobs a poll has still to look at. -/
def Task.jobs : Task → List AgentJob
  | .working _ jobs | .claiming _ _ _ _ jobs | .running _ jobs => jobs
  | _ => []

/-- No claim is waited for. -/
def Task.Quiet : Task → Prop
  | .claiming .. => False
  | _ => True

/-- A job on its way to the agent, or waiting there. -/
def World.Circulates (w : World) (a : AgentJob) : Prop :=
  a ∈ w.task.jobs ∨ ∃ offer ∈ w.offers, a ∈ offer.2

inductive Effect (site : Site) (w : World) (e : Event) : World → Prop
  | same : Effect site w e w
  | coord (c : Coordinator) (hgrows : w.coord.Grows c) (hsound : c.Sound site)
      (hsigned : c.signed = w.coord.signed ∨ ∃ call role run enabled now g,
        e = .approve call role run enabled now ∧ g.payload.runId = run ∧
          c.signed = w.coord.signed ++ [g]) :
      Effect site w e { w with coord := c }
  | moved (task : Task) (pin : Option String) (clock : Int) (next : Nat) (hnext : w.next ≤ next)
      (hclock : clock = w.clock ∨ e = .job clock) (hjobs : ∀ a ∈ task.jobs, w.Circulates a)
      (hquiet : task.Quiet) :
      Effect site w e { w with task := task, pin := pin, clock := clock, next := next }
  | replayed (jobs : List AgentJob) (pinned : String) (he : e = .replay jobs)
      (hsigned : ∀ a ∈ jobs, a.signature ∈ w.coord.signed) :
      Effect site w e { w with task := .working pinned jobs }
  | offered (n : Nat) (now : Int) :
      Effect site w e { w with offers := w.offers ++ [(n, w.coord.pendingJobs site now)] }
  | verified (a : AgentJob) (pinned : String) (jobs : List AgentJob) (now : Int)
      (runs : Table Uuid Int) (he : e = .job now) (ha : w.Circulates a)
      (hjobs : ∀ b ∈ jobs, w.Circulates b) (hsig : a.signature = ⟨pinned, a.payload⟩)
      (hrun : a.payload.runId = a.runId) (hnode : a.payload.nodeId = site.nodeId)
      (hfresh : now < a.payload.expiresAt)
      (hruns : rememberRun w.runs a.payload.runId a.payload.expiresAt now = some runs) :
      Effect site w e { w with
        clock := now
        runs := runs
        claims := w.claims.insert w.next a.payload.runId
        next := w.next + 1
        task := .claiming w.next pinned a.payload now jobs }
  | accepted (n : Nat) (run : Uuid) (now : Int) (c : Coordinator)
      (hclaim : w.claims.lookup n = some run) (hc : w.coord.claimJob site run now = some c) :
      Effect site w e { w with coord := c, answers := w.answers ++ [(n, true)] }
  | refused (n : Nat) : Effect site w e { w with answers := w.answers ++ [(n, false)] }
  | executed (n : Nat) (pinned : String) (job : SignedJob) (verifiedAt : Int) (jobs : List AgentJob)
      (htask : w.task = .claiming n pinned job verifiedAt jobs)
      (hanswer : (n, true) ∈ w.answers ∨ e = .acceptClaim) :
      Effect site w e { w with
        executed := w.executed ++ [⟨job, verifiedAt, n⟩], task := .running pinned jobs }

section Events

variable {site : Site} {w : World} {e : Event}

theorem verifyJob_ok {pinned : String} {job : SignedJob}
    {nodeId : Uuid} {payload : SignedJob} {signature : Signature} {now : Int}
    (h : verifyJob pinned nodeId payload signature now = .ok job) :
    job = payload ∧ signature = ⟨pinned, payload⟩ ∧ payload.nodeId = nodeId ∧
      now < payload.expiresAt := by
  simp only [verifyJob, bind_ok_iff, failIf_eq_ok, decide_eq_false_iff_not, not_not, not_le] at h
  obtain ⟨-, hsig, -, hnode, -, hexpires, -, -, -, -, hok⟩ := h
  exact ⟨(Except.ok.inj hok).symm, hsig, hnode, hexpires⟩

/-- The result of a handler that signs nothing. -/
theorem effect_coordDo {c : Option Coordinator}
    (h : ∀ c', c = some c' → w.coord.Handles site c') :
    Effect site w e (w.coordDo c) := by
  cases c with
  | none => exact .same
  | some c' => exact .coord c' (h c' rfl).1 (h c' rfl).2.1 (.inl (h c' rfl).2.2)

theorem World.circulates_task {task : Task} (htask : w.task = task) {a : AgentJob}
    (ha : a ∈ task.jobs) : w.Circulates a := .inl (htask ▸ ha)

/-- The agent goes on with jobs it has or is offered. -/
theorem effect_task (task : Task) (hjobs : ∀ a ∈ task.jobs, w.Circulates a) (hquiet : task.Quiet) :
    Effect site w e { w with task := task } :=
  .moved task w.pin w.clock w.next le_rfl (.inl rfl) hjobs hquiet

/-- The only handler that signs. -/
theorem effect_approve (hs : w.coord.Sound site) (call : Nat) (role : Role) (run : Uuid)
    (enabled : Bool) (now : Int) : Effect site w (.approve call role run enabled now)
      (w.coordDo (w.coord.approveRun site call role run enabled now)) := by
  cases happrove : w.coord.approveRun site call role run enabled now with
  | none => exact .same
  | some c' =>
    obtain ⟨r, payload, -, -, hdesc, heq⟩ := approveRun_cases happrove
    obtain ⟨hgrows, hsound⟩ := hs.approveRun happrove
    exact .coord c' hgrows hsound (.inr ⟨call, role, run, enabled, now, ⟨site.key, payload⟩, rfl,
      hdesc.runId, by rw [heq]⟩)

theorem effect_receiveOffers (jobs : List AgentJob) :
    Effect site w (.receiveOffers jobs) (w.step site (.receiveOffers jobs)) := by
  rw [World.step]
  split
  · next n pinned htask =>
    split_ifs with hoffer
    · exact effect_task (.working pinned jobs) (fun a ha => .inr ⟨(n, jobs), hoffer, ha⟩) trivial
    · exact .same
  · exact .same

theorem effect_nextJob (now : Int) : Effect site w (.job now) (w.nextJob site now) := by
  unfold World.nextJob
  split
  · next pinned a jobs htask =>
    have hrest : ∀ b ∈ jobs, w.Circulates b :=
      fun b hb => w.circulates_task htask (List.mem_cons_of_mem _ hb)
    -- a job that is refused is left behind
    have hskip : Effect site w (.job now) { w with clock := now, task := .working pinned jobs } :=
      .moved (.working pinned jobs) w.pin now w.next le_rfl (.inr rfl) hrest trivial
    split
    · next job hverify =>
      obtain ⟨rfl, hsig, hnode, hexpires⟩ := verifyJob_ok hverify
      split_ifs with hrun
      · split
        · next runs hruns =>
          exact .verified a pinned jobs now runs rfl (w.circulates_task htask List.mem_cons_self)
            hrest hsig hrun hnode hexpires hruns
        · exact hskip
      · exact hskip
    · exact hskip
  · exact effect_task .idle nofun trivial
  · exact .same

/-- A claim is accepted by an answer, or by a coordinator that accepts every claim. -/
theorem effect_claimed {accepted : Bool}
    (hanswer : ∀ n pinned job verifiedAt jobs, w.task = .claiming n pinned job verifiedAt jobs →
      (n, accepted) ∈ w.answers ∨ e = .acceptClaim ∧ accepted) :
    Effect site w e (w.claimed accepted) := by
  unfold World.claimed
  split
  · next n pinned job verifiedAt jobs htask =>
    cases accepted with
    | true =>
      exact .executed n pinned job verifiedAt jobs htask
        ((hanswer n pinned job verifiedAt jobs htask).imp id And.left)
    | false => exact effect_task (.working pinned jobs) (fun _ => w.circulates_task htask) trivial
  · exact .same

theorem effect_receiveClaim (accepted : Bool) :
    Effect site w (.receiveClaim accepted) (w.step site (.receiveClaim accepted)) := by
  rw [World.step]
  split
  · next n _ _ _ _ htask =>
    split_ifs with hanswer
    · refine effect_claimed fun m _ _ _ _ htask' => ?_
      cases htask.symm.trans htask'
      exact .inl hanswer
    · exact .same
  · exact .same

/-- Whatever the event, what it does to the world is one of the effects. -/
theorem step_effect (hs : w.coord.Sound site) (e : Event) : Effect site w e (w.step site e) := by
  cases e with
  | request role run row => exact effect_coordDo fun c' h => hs.requestRun h
  | approve call role run enabled now => exact effect_approve hs call role run enabled now
  | store call now => exact effect_coordDo fun c' h => hs.storeApproval h
  | reject role run now => exact effect_coordDo fun c' h => hs.rejectRun h
  | cancel role run now => exact effect_coordDo fun c' h => hs.cancelRun h
  | result run status outputBytes => exact effect_coordDo fun c' h => hs.jobResult h
  | poll published =>
    rw [World.step]
    split
    · next key htask hkey =>
      exact .moved (.polling w.next key) (some (w.pin.getD published)) w.clock (w.next + 1)
        (Nat.le_succ _) (.inl rfl) nofun trivial
    · exact .same
  | handlePoll n now =>
    rw [World.step]
    split_ifs
    · exact .offered n now
    · exact .same
  | receiveOffers jobs => exact effect_receiveOffers jobs
  | job now => exact effect_nextJob now
  | handleClaim n now =>
    rw [World.step]
    split
    · next run hclaim =>
      split
      · next c hc => exact .accepted n run now c hclaim hc
      · exact .refused n
    · exact .same
  | receiveClaim accepted => exact effect_receiveClaim accepted
  | finished =>
    rw [World.step]
    split
    · next pinned jobs htask =>
      exact effect_task (.working pinned jobs) (fun _ => w.circulates_task htask) trivial
    · exact .same
  | stop => exact effect_task .idle nofun trivial
  | replay jobs =>
    rw [World.step]
    split
    · split_ifs with hsigned
      · exact .replayed jobs _ rfl hsigned
      · exact .same
    · exact .same
  | acceptClaim => exact effect_claimed fun _ _ _ _ _ _ => .inr ⟨rfl, rfl⟩

end Events

/-! ## A coordinator that follows its handlers -/

/-- The row of the job holds its signature. -/
def Coordinator.Stores (c : Coordinator) (signature : Signature) (payload : SignedJob) : Prop :=
  ∃ r, c.rows.lookup payload.runId = some r ∧ r.signature = some (signature, payload)

/-- A claim was accepted: an owner had approved the stored payload, and nobody had rejected or
cancelled the run. -/
def Coordinator.Cleared (c : Coordinator) (run : Uuid) : Prop :=
  ∃ signature payload before after, payload.runId = run ∧ c.Stores signature payload ∧
    c.audit = before ++ .started run :: after ∧ .approved .owner payload ∈ before ∧
      ∀ e ∈ before, e.closes ≠ some run

section Growing

variable {c c' : Coordinator} {run : Uuid}

theorem Coordinator.Stores.mono {signature : Signature} {payload : SignedJob}
    (h : c.Stores signature payload) (hgrows : c.Grows c') :
    c'.Stores signature payload := by
  obtain ⟨r, hr, hsig⟩ := h
  obtain ⟨r', hr', hkeeps⟩ := hgrows.rows _ r hr
  exact ⟨r', hr', hkeeps.signature _ hsig⟩

theorem Coordinator.Stores.unique {signature : Signature} {payload : SignedJob}
    {signature' : Signature} {payload' : SignedJob}
    (h : c.Stores signature payload) (h' : c.Stores signature' payload')
    (hrun : payload.runId = payload'.runId) : payload = payload' := by
  obtain ⟨r, hr, hsig⟩ := h
  obtain ⟨r', hr', hsig'⟩ := h'
  rw [hrun, hr'] at hr
  cases hr
  rw [hsig] at hsig'
  cases hsig'
  rfl

theorem Coordinator.Cleared.mono (h : c.Cleared run) (hgrows : c.Grows c') : c'.Cleared run := by
  obtain ⟨g, payload, before, after, hrun, hstores, haudit, happroved, hopen⟩ := h
  obtain ⟨more, hmore⟩ := hgrows.audit
  refine ⟨g, payload, before, after ++ more, hrun, hstores.mono hgrows, ?_, happroved, hopen⟩
  rw [← hmore, haudit, List.append_assoc, List.cons_append]

theorem Coordinator.Cleared.started (h : c.Cleared run) : .started run ∈ c.audit := by
  obtain ⟨g, payload, before, after, -, -, haudit, -⟩ := h
  rw [haudit]
  exact List.mem_append_right _ List.mem_cons_self

/-- An accepted claim is the run's first. -/
theorem Coordinator.Sound.claim_cleared {site : Site} (hs : c.Sound site) {now : Int}
    (h : c.claimJob site run now = some c') : c'.Cleared run ∧ .started run ∉ c.audit := by
  obtain ⟨r, hr, hp, rfl⟩ := updateRun_cases h
  rw [Bool.and_eq_true, Bool.and_eq_true, decide_eq_true_eq, decide_eq_true_eq] at hp
  have hrow := hs.rows run r hr
  obtain ⟨g, payload, hsig, happroved⟩ := hrow.approved hp.1.2
  obtain ⟨-, -, hdesc⟩ := hrow.signature g payload hsig
  have hopen := hrow.untouched (.inr hp.1.2)
  refine ⟨⟨g, payload, c.audit, [], hdesc.runId, ?_, rfl, happroved, hopen⟩, ?_⟩
  · refine ⟨{ r with status := .running }, ?_, hsig⟩
    rw [hdesc.runId, Table.lookup_insert_if, if_pos rfl]
  · intro hmem
    exact hopen _ hmem rfl

end Growing

/-- The agent's part of the promise: the job is stored, for this device and not expired. -/
structure Ready (site : Site) (c : Coordinator) (job : SignedJob) (verifiedAt : Int) : Prop where
  stored : ∃ signature, c.Stores signature job
  device : job.nodeId = site.nodeId
  fresh : verifiedAt < job.expiresAt

variable {site : Site}

theorem Ready.mono {c c' : Coordinator} {job : SignedJob} {verifiedAt : Int}
    (h : Ready site c job verifiedAt) (hgrows : c.Grows c') : Ready site c' job verifiedAt :=
  ⟨h.stored.imp fun _ hs => hs.mono hgrows, h.device, h.fresh⟩

namespace World

/-- The invariant under honest events. -/
structure Honest (site : Site) (w : World) : Prop where
  coord : w.coord.Sound site
  jobs : ∀ a, w.Circulates a → a.payload.runId = a.runId → w.coord.Stores a.signature a.payload
  claims : ∀ n run, w.claims.lookup n = some run → n < w.next
  answers : ∀ n, (n, true) ∈ w.answers → ∃ run, w.claims.lookup n = some run ∧ w.coord.Cleared run
  once : ∀ n m run, (n, true) ∈ w.answers → (m, true) ∈ w.answers →
    w.claims.lookup n = some run → w.claims.lookup m = some run → n = m
  waiting : ∀ n pinned job verifiedAt jobs, w.task = .claiming n pinned job verifiedAt jobs →
    w.claims.lookup n = some job.runId ∧ Ready site w.coord job verifiedAt ∧
      ∀ x ∈ w.executed, x.claim ≠ n
  executed : ∀ x ∈ w.executed, w.claims.lookup x.claim = some x.job.runId ∧
    (x.claim, true) ∈ w.answers ∧ Ready site w.coord x.job x.verifiedAt
  runs : (w.executed.map fun x => x.job.runId).Nodup

variable {site : Site} {w : World} {n : Nat}

/-- One more execution, of a run that was not executed before. -/
theorem nodup_executed (hruns : (w.executed.map fun x => x.job.runId).Nodup) {x : Execution}
    (hnew : ∀ y ∈ w.executed, y.job.runId ≠ x.job.runId) :
    ((w.executed ++ [x]).map fun x => x.job.runId).Nodup := by
  rw [List.map_append, List.nodup_append]
  refine ⟨hruns, List.nodup_singleton _, fun run hrun run' hrun' => ?_⟩
  obtain ⟨y, hy, rfl⟩ := List.mem_map.mp hrun
  cases List.mem_singleton.mp hrun'
  exact hnew y hy

theorem circulates_offered {jobs : List AgentJob} {a : AgentJob}
    (ha : { w with offers := w.offers ++ [(n, jobs)] : World }.Circulates a) :
    w.Circulates a ∨ a ∈ jobs := by
  rcases ha with ha | ⟨offer, hoffer, ha⟩
  · exact .inl (.inl ha)
  · rcases List.mem_append.mp hoffer with hoffer | hoffer
    · exact .inl (.inr ⟨offer, hoffer, ha⟩)
    · rw [List.mem_singleton.mp hoffer] at ha
      exact .inr ha

theorem honest_empty : Honest site {} where
  coord := sound_empty
  jobs a ha := by
    rcases ha with ha | ⟨_, ha, _⟩ <;> cases ha
  claims := nofun
  answers := nofun
  once := nofun
  waiting := nofun
  executed := nofun
  runs := List.nodup_nil

/-- The coordinator moves on. -/
theorem Honest.grow {c : Coordinator}
    (h : w.Honest site) (hgrows : w.coord.Grows c) (hsound : c.Sound site) :
    Honest site { w with coord := c } :=
  { h with
    coord := hsound
    jobs := fun a ha hrun => (h.jobs a ha hrun).mono hgrows
    answers := fun n hn => by
      obtain ⟨run, hrun, hcleared⟩ := h.answers n hn
      exact ⟨run, hrun, hcleared.mono hgrows⟩
    waiting := fun n pinned job verifiedAt jobs htask => by
      obtain ⟨hclaim, hready, hnew⟩ := h.waiting n pinned job verifiedAt jobs htask
      exact ⟨hclaim, hready.mono hgrows, hnew⟩
    executed := fun x hx => by
      obtain ⟨hclaim, hanswer, hready⟩ := h.executed x hx
      exact ⟨hclaim, hanswer, hready.mono hgrows⟩ }

theorem Honest.move (h : w.Honest site) {task : Task} {pin : Option String} {clock : Int}
    {next : Nat}
    (hnext : w.next ≤ next) (hjobs : ∀ a ∈ task.jobs, w.Circulates a) (hquiet : task.Quiet) :
    Honest site { w with task := task, pin := pin, clock := clock, next := next } :=
  { h with
    jobs := fun a ha => h.jobs a (ha.elim (hjobs a) .inr)
    claims := fun n run hn => lt_of_lt_of_le (h.claims n run hn) hnext
    waiting := fun n pinned job verifiedAt jobs htask => by
      dsimp only at htask
      rw [htask] at hquiet
      exact hquiet.elim }

theorem Honest.offer (h : w.Honest site) (n : Nat) (now : Int) :
    Honest site { w with offers := w.offers ++ [(n, w.coord.pendingJobs site now)] } :=
  { h with
    jobs := fun a ha hrun => by
      rcases circulates_offered ha with ha | ha
      · exact h.jobs a ha hrun
      · unfold Stores
        rw [hrun]
        exact mem_pendingJobs ha }

/-- A new claim has a number of its own. -/
theorem Honest.lookup_claim (h : w.Honest site) {run run' : Uuid}
    (hn : w.claims.lookup n = some run) : (w.claims.insert w.next run').lookup n = some run := by
  rw [Table.lookup_insert_if, if_neg (h.claims n run hn).ne, hn]

section

variable (h : w.Honest site)
include h

theorem Honest.verify {pinned : String} {now : Int}
    {a : AgentJob} {jobs : List AgentJob} {runs : Table Uuid Int}
    (ha : w.Circulates a) (hjobs : ∀ b ∈ jobs, w.Circulates b) (hrun : a.payload.runId = a.runId)
    (hnode : a.payload.nodeId = site.nodeId) (hfresh : now < a.payload.expiresAt) :
    Honest site { w with
      clock := now
      runs := runs
      claims := w.claims.insert w.next a.payload.runId
      next := w.next + 1
      task := .claiming w.next pinned a.payload now jobs } where
  coord := h.coord
  jobs b hb := h.jobs b (hb.elim (hjobs b) .inr)
  claims n run hn := by
    dsimp only at hn ⊢
    rw [Table.lookup_insert_if] at hn
    split_ifs at hn with heq
    · omega
    · exact Nat.lt_succ_of_lt (h.claims n run hn)
  answers n hn := by
    obtain ⟨run, hlookup, hcleared⟩ := h.answers n hn
    exact ⟨run, h.lookup_claim hlookup, hcleared⟩
  once n m run hn hm hrn hrm := by
    obtain ⟨run₁, h₁, -⟩ := h.answers n hn
    obtain ⟨run₂, h₂, -⟩ := h.answers m hm
    have heq₁ := (h.lookup_claim h₁).symm.trans hrn
    have heq₂ := (h.lookup_claim h₂).symm.trans hrm
    cases heq₁
    cases heq₂
    exact h.once n m _ hn hm h₁ h₂
  waiting n pinned' job verifiedAt jobs' htask := by
    cases htask
    refine ⟨by rw [Table.lookup_insert_if, if_pos rfl], ⟨⟨_, h.jobs a ha hrun⟩, hnode, hfresh⟩, ?_⟩
    intro x hx
    exact (h.claims _ _ (h.executed x hx).1).ne
  executed x hx := by
    obtain ⟨hclaim, hanswer, hready⟩ := h.executed x hx
    exact ⟨h.lookup_claim hclaim, hanswer, hready⟩
  runs := h.runs

theorem Honest.accept {c : Coordinator} {now : Int}
    {run : Uuid} (hclaim : w.claims.lookup n = some run)
    (hc : w.coord.claimJob site run now = some c) :
    Honest site { w with coord := c, answers := w.answers ++ [(n, true)] } := by
  obtain ⟨hgrows, hsound, -⟩ := h.coord.claimJob hc
  obtain ⟨hcleared, hfirst⟩ := h.coord.claim_cleared hc
  have hnew : ∀ m, (m, true) ∈ w.answers → w.claims.lookup m ≠ some run := by
    intro m hm hrun
    obtain ⟨run', hrun', hcleared'⟩ := h.answers m hm
    rw [hrun] at hrun'
    cases hrun'
    exact hfirst hcleared'.started
  have h' := h.grow hgrows hsound
  exact { h' with
    answers := fun m hm => by
      rcases List.mem_append.mp hm with hm | hm
      · exact h'.answers m hm
      · cases List.mem_singleton.mp hm
        exact ⟨run, hclaim, hcleared⟩
    once := fun m m' run' hm hm' hrun hrun' => by
      rcases List.mem_append.mp hm with hm | hm <;> rcases List.mem_append.mp hm' with hm' | hm'
      · exact h.once m m' run' hm hm' hrun hrun'
      · cases List.mem_singleton.mp hm'
        rw [hclaim] at hrun'
        cases hrun'
        exact absurd hrun (hnew m hm)
      · cases List.mem_singleton.mp hm
        rw [hclaim] at hrun
        cases hrun
        exact absurd hrun' (hnew m' hm')
      · cases List.mem_singleton.mp hm
        cases List.mem_singleton.mp hm'
        rfl
    executed := fun x hx => by
      obtain ⟨hx₁, hx₂, hx₃⟩ := h'.executed x hx
      exact ⟨hx₁, List.mem_append_left _ hx₂, hx₃⟩ }

theorem Honest.refuse (n : Nat) : Honest site { w with answers := w.answers ++ [(n, false)] } := by
  have hold : ∀ m, (m, true) ∈ w.answers ++ [(n, false)] → (m, true) ∈ w.answers := by
    intro m hm
    refine (List.mem_append.mp hm).resolve_right fun hm => ?_
    cases List.mem_singleton.mp hm
  exact { h with
    answers := fun m hm => h.answers m (hold m hm)
    once := fun m m' run hm hm' => h.once m m' run (hold m hm) (hold m' hm')
    executed := fun x hx => by
      obtain ⟨hx₁, hx₂, hx₃⟩ := h.executed x hx
      exact ⟨hx₁, List.mem_append_left _ hx₂, hx₃⟩ }

theorem Honest.execute {pinned : String} {job : SignedJob} {verifiedAt : Int} {jobs : List AgentJob}
    (htask : w.task = .claiming n pinned job verifiedAt jobs) (hanswer : (n, true) ∈ w.answers) :
    Honest site { w with
      executed := w.executed ++ [⟨job, verifiedAt, n⟩], task := .running pinned jobs } := by
  obtain ⟨hclaim, hready, hnew⟩ := h.waiting n pinned job verifiedAt jobs htask
  exact { h with
    jobs := fun a ha => h.jobs a (ha.elim (w.circulates_task htask) .inr)
    waiting := nofun
    executed := by
      rw [List.forall_mem_append, List.forall_mem_singleton]
      exact ⟨h.executed, hclaim, hanswer, hready⟩
    runs := nodup_executed h.runs fun x hx heq => by
      -- two accepted claims of one run are one claim
      obtain ⟨hclaim', hanswer', -⟩ := h.executed x hx
      rw [heq] at hclaim'
      exact hnew x hx (h.once _ _ _ hanswer' hanswer hclaim' hclaim) }

end

end World

/-- Events of a coordinator that follows its handlers. -/
def Event.honest : Event → Bool
  | .replay _ | .acceptClaim => false
  | _ => true

variable {w : World}

/-- Such a coordinator never breaks it. -/
theorem World.Honest.step (e : Event) (he : e.honest) (h : w.Honest site) :
    (w.step site e).Honest site := by
  have heffect := step_effect h.coord e
  generalize w.step site e = w' at heffect
  cases heffect with
  | same => exact h
  | coord c hgrows hsound => exact h.grow hgrows hsound
  | moved task pin clock next hnext hclock hjobs hquiet => exact h.move hnext hjobs hquiet
  | replayed jobs pinned hreplay =>
    rw [hreplay] at he
    cases he
  | offered n now => exact h.offer n now
  | verified a pinned jobs now runs _ ha hjobs hsig hrun hnode hfresh hruns =>
    exact h.verify ha hjobs hrun hnode hfresh
  | accepted n run now c hclaim hc => exact h.accept hclaim hc
  | refused n => exact h.refuse n
  | executed n pinned job verifiedAt jobs htask hanswer =>
    refine h.execute htask (hanswer.resolve_right fun haccept => ?_)
    rw [haccept] at he
    cases he

/-! ## A coordinator that replays -/

namespace World

/-- The job was signed, and the ledger holds it until its expiry has passed. -/
def Holds (w : World) (job : SignedJob) : Prop :=
  (∃ g ∈ w.coord.signed, g.payload = job) ∧
    (w.runs.lookup job.runId = some job.expiresAt ∨ job.expiresAt ≤ w.clock)

/-- The invariant that the ledger carries under any events. -/
structure Guarded (site : Site) (w : World) : Prop where
  coord : w.coord.Sound site
  single : ∀ g ∈ w.coord.signed, ∀ g' ∈ w.coord.signed, g.payload.runId = g'.payload.runId → g = g'
  jobs : ∀ a, w.Circulates a → a.signature ∈ w.coord.signed
  waiting : ∀ n pinned job verifiedAt jobs, w.task = .claiming n pinned job verifiedAt jobs →
    w.Holds job ∧ ∀ x ∈ w.executed, x.job.runId ≠ job.runId
  executed : ∀ x ∈ w.executed, w.Holds x.job
  runs : (w.executed.map fun x => x.job.runId).Nodup

variable {site : Site} {w : World}

theorem guarded_empty : Guarded site {} where
  coord := sound_empty
  single := nofun
  jobs a ha := by
    rcases ha with ha | ⟨_, ha, _⟩ <;> cases ha
  waiting := nofun
  executed := nofun
  runs := List.nodup_nil

theorem Holds.mono {job : SignedJob} {w' : World} (h : w.Holds job)
    (hsigned : ∀ g ∈ w.coord.signed, g ∈ w'.coord.signed) (hruns : w'.runs = w.runs)
    (hclock : w.clock ≤ w'.clock) : w'.Holds job := by
  obtain ⟨⟨g, hg, hjob⟩, hledger⟩ := h
  refine ⟨⟨g, hsigned g hg, hjob⟩, ?_⟩
  rw [hruns]
  exact hledger.imp id fun hle => hle.trans hclock

theorem Guarded.grow (h : w.Guarded site) {c : Coordinator} (hgrows : w.coord.Grows c)
    (hsound : c.Sound site)
    (hsingle : ∀ g ∈ c.signed, ∀ g' ∈ c.signed, g.payload.runId = g'.payload.runId → g = g') :
    Guarded site { w with coord := c } :=
  { h with
    coord := hsound
    single := hsingle
    jobs := fun a ha => hgrows.signed _ (h.jobs a ha)
    waiting := fun n pinned job verifiedAt jobs htask => by
      obtain ⟨hholds, hnew⟩ := h.waiting n pinned job verifiedAt jobs htask
      exact ⟨hholds.mono hgrows.signed rfl le_rfl, hnew⟩
    executed := fun x hx => (h.executed x hx).mono hgrows.signed rfl le_rfl }

/-- The agent goes on with jobs that were signed, and its clock does not go back. -/
theorem Guarded.move (h : w.Guarded site) {task : Task} {pin : Option String} {clock : Int}
    {next : Nat} (hclock : w.clock ≤ clock)
    (hjobs : ∀ a ∈ task.jobs, a.signature ∈ w.coord.signed) (hquiet : task.Quiet) :
    Guarded site { w with task := task, pin := pin, clock := clock, next := next } :=
  { h with
    jobs := fun a ha => ha.elim (hjobs a) fun ha => h.jobs a (.inr ha)
    waiting := fun n pinned job verifiedAt jobs htask => by
      dsimp only at htask
      rw [htask] at hquiet
      exact hquiet.elim
    executed := fun x hx => (h.executed x hx).mono (fun _ hg => hg) rfl hclock }

theorem Guarded.offer (h : w.Guarded site) (n : Nat) (now : Int) :
    Guarded site { w with offers := w.offers ++ [(n, w.coord.pendingJobs site now)] } :=
  { h with
    jobs := fun a ha => by
      rcases circulates_offered ha with ha | ha
      · exact h.jobs a ha
      · obtain ⟨r, hr, hsig⟩ := mem_pendingJobs ha
        exact ((h.coord.rows _ r hr).signature _ _ hsig).2.1 }

theorem rememberRun_eq {runs : Table Uuid Int} {now : Int}
    {runs' : Table Uuid Int} {run : Uuid} {expiresAt : Int}
    (h : rememberRun runs run expiresAt now = some runs') :
    (∀ expires, runs.lookup run = some expires → expires ≤ now) ∧
      ∀ run', runs'.lookup run' = if run' = run then some expiresAt else
        (runs.lookup run').filter (now < ·) := by
  unfold rememberRun at h
  dsimp only at h
  split_ifs at h with hseen
  cases h
  have hretain : ∀ run', (runs.retain fun _ expires => now < expires).lookup run' =
      (runs.lookup run').filter (now < ·) := by
    intro run'
    ext expires
    rw [Option.filter_eq_some_iff, Table.lookup_retain_eq_some]
  constructor
  · intro expires hlookup
    by_contra hlt
    refine hseen ?_
    rw [hretain, hlookup]
    simp only [Option.filter_some, Option.isSome_ite, decide_eq_true_eq]
    omega
  · intro run'
    rw [Table.lookup_insert_if, hretain]

theorem Guarded.verify {runs : Table Uuid Int} {now : Int} {pinned : String}
    (h : w.Guarded site) {a : AgentJob} {jobs : List AgentJob}
    (hclock : w.clock ≤ now) (ha : w.Circulates a) (hjobs : ∀ b ∈ jobs, w.Circulates b)
    (hsig : a.signature = ⟨pinned, a.payload⟩) (hfresh : now < a.payload.expiresAt)
    (hruns : rememberRun w.runs a.payload.runId a.payload.expiresAt now = some runs) :
    Guarded site { w with
      clock := now
      runs := runs
      claims := w.claims.insert w.next a.payload.runId
      next := w.next + 1
      task := .claiming w.next pinned a.payload now jobs } := by
  obtain ⟨hunseen, hlookup⟩ := rememberRun_eq hruns
  have hsigned := h.jobs a ha
  -- a run executed before was signed with the same expiry: it is in the ledger, or expired
  have hnew : ∀ x ∈ w.executed, x.job.runId ≠ a.payload.runId := by
    intro x hx heq
    obtain ⟨⟨g, hg, hjob⟩, hledger⟩ := h.executed x hx
    have hsame := h.single g hg a.signature hsigned (by rw [hjob, hsig]; exact heq)
    have hpayload : x.job = a.payload := by rw [← hjob, hsame, hsig]
    rw [hpayload] at hledger
    rcases hledger with hin | hle
    · have := hunseen _ hin
      omega
    · omega
  exact {
    coord := h.coord
    single := h.single
    jobs := fun b hb => h.jobs b (hb.elim (hjobs b) .inr)
    waiting := fun n pinned' job verifiedAt jobs' htask => by
      cases htask
      refine ⟨⟨⟨a.signature, hsigned, by rw [hsig]⟩, .inl ?_⟩, hnew⟩
      rw [hlookup, if_pos rfl]
    executed := fun x hx => by
      obtain ⟨hsign, hledger⟩ := h.executed x hx
      refine ⟨hsign, ?_⟩
      dsimp only
      rw [hlookup, if_neg (hnew x hx)]
      rcases hledger with hin | hle
      · rw [hin]
        by_cases hlt : now < x.job.expiresAt
        · exact .inl (if_pos (by simpa using hlt))
        · exact .inr (by omega)
      · exact .inr (hle.trans hclock)
    runs := h.runs }

theorem Guarded.execute {job : SignedJob} {pinned : String}
    (h : w.Guarded site) {n : Nat} {verifiedAt : Int} {jobs : List AgentJob}
    (htask : w.task = .claiming n pinned job verifiedAt jobs) :
    Guarded site { w with
      executed := w.executed ++ [⟨job, verifiedAt, n⟩], task := .running pinned jobs } := by
  obtain ⟨hholds, hnew⟩ := h.waiting n pinned job verifiedAt jobs htask
  exact { h with
    jobs := fun a ha => h.jobs a (ha.elim (w.circulates_task htask) .inr)
    waiting := nofun
    executed := by
      rw [List.forall_mem_append, List.forall_mem_singleton]
      exact ⟨h.executed, hholds⟩
    runs := nodup_executed h.runs hnew }

end World

/-- The agent's clock does not go back, and a run is signed only once. -/
def Event.steady (w : World) : Event → Bool
  | .job now => w.clock ≤ now
  | .approve _ _ run _ _ => w.coord.signed.all fun g => g.payload.runId ≠ run
  | _ => true

/-- Nor does any event, while clocks do not go back and no run is signed twice. -/
theorem World.Guarded.step (e : Event) (he : e.steady w) (h : w.Guarded site) :
    (w.step site e).Guarded site := by
  have heffect := step_effect h.coord e
  generalize w.step site e = w' at heffect
  cases heffect with
  | same => exact h
  | coord c hgrows hsound hsigned =>
    refine h.grow hgrows hsound ?_
    rcases hsigned with hsame | ⟨call, role, run, enabled, now, g, rfl, hrun, happend⟩
    · rw [hsame]
      exact h.single
    · rw [happend]
      -- an approval signs a run that was not signed before
      have hfirst : ∀ g' ∈ w.coord.signed, g'.payload.runId ≠ g.payload.runId := by
        intro g' hg'
        rw [hrun]
        simpa using List.all_eq_true.mp he g' hg'
      intro g₁ hg₁ g₂ hg₂ heq
      rcases List.mem_append.mp hg₁ with hg₁ | hg₁ <;> rcases List.mem_append.mp hg₂ with hg₂ | hg₂
      · exact h.single g₁ hg₁ g₂ hg₂ heq
      · rw [List.mem_singleton.mp hg₂] at heq
        exact absurd heq (hfirst g₁ hg₁)
      · rw [List.mem_singleton.mp hg₁] at heq
        exact absurd heq.symm (hfirst g₂ hg₂)
      · rw [List.mem_singleton.mp hg₁, List.mem_singleton.mp hg₂]
  | moved task pin clock next hnext hclock hjobs hquiet =>
    refine h.move ?_ (fun a ha => h.jobs a (hjobs a ha)) hquiet
    rcases hclock with rfl | rfl
    · exact le_rfl
    · simpa [Event.steady] using he
  | replayed jobs pinned _ hsigned => exact h.move le_rfl hsigned trivial
  | offered n now => exact h.offer n now
  | verified a pinned jobs now runs hjob ha hjobs hsig hrun hnode hfresh hruns =>
    subst hjob
    exact h.verify (by simpa [Event.steady] using he) ha hjobs hsig hfresh hruns
  | accepted n run now c hclaim hc =>
    obtain ⟨hgrows, hsound, hsigned⟩ := h.coord.claimJob hc
    have h' := h.grow hgrows hsound (by rw [hsigned]; exact h.single)
    exact { h' with }
  | refused n => exact { h with }
  | executed n pinned job verifiedAt jobs htask _ => exact h.execute htask

/-! ## Every run -/

/-- What was executed was approved by an owner for this device, was neither rejected nor cancelled
before the coordinator accepted the claim, and had not expired when it was verified. -/
def Authorised (site : Site) (audit : List Audit) (x : Execution) : Prop :=
  x.job.nodeId = site.nodeId ∧ x.verifiedAt < x.job.expiresAt ∧
    ∃ before after, audit = before ++ .started x.job.runId :: after ∧
      .approved .owner x.job ∈ before ∧ .rejected x.job.runId ∉ before ∧
        .cancelRequested x.job.runId ∉ before

theorem World.Honest.authorised (h : w.Honest site) :
    ∀ x ∈ w.executed, Authorised site w.coord.audit x := by
  intro x hx
  obtain ⟨hclaim, hanswer, hready⟩ := h.executed x hx
  obtain ⟨run, hrun, hcleared⟩ := h.answers x.claim hanswer
  rw [hclaim] at hrun
  cases hrun
  obtain ⟨g, payload, before, after, hid, hstores, haudit, happroved, hopen⟩ := hcleared
  obtain ⟨g', hstores'⟩ := hready.stored
  have hsame : payload = x.job := hstores.unique hstores' hid
  subst hsame
  exact ⟨hready.device, hready.fresh, before, after, haudit, happroved,
    fun hmem => hopen _ hmem rfl, fun hmem => hopen _ hmem rfl⟩

/-- With a coordinator that follows its handlers everything executed is authorised and no run is
executed twice, whatever is lost, repeated or delayed and whenever the agent crashes.  No run is
executed twice either if the coordinator offers any signed payload again and accepts every claim,
as long as the agent's clock does not go back and no run is signed again. -/
theorem jobs_authorised_once (site : Site) (events : List Event) :
    ((∀ e ∈ events, e.honest) →
      (∀ x ∈ (run (World.step site) {} events).executed,
        Authorised site (run (World.step site) {} events).coord.audit x) ∧
      ((run (World.step site) {} events).executed.map fun x => x.job.runId).Nodup) ∧
    (Along (World.step site) (fun w e => e.steady w) {} events →
      ((run (World.step site) {} events).executed.map fun x => x.job.runId).Nodup) := by
  constructor
  · intro hhonest
    have h : (run (World.step site) {} events).Honest site :=
      run_invariant_all (fun w e he hw => hw.step e he) hhonest World.honest_empty
    exact ⟨h.authorised, h.runs⟩
  · intro hsteady
    have h : (run (World.step site) {} events).Guarded site :=
      run_invariant_along (fun w e he hw => hw.step e he) hsteady World.guarded_empty
    exact h.runs

/-! ### A run approved once, and one approved twice at a time -/

def depot : Site := ⟨1, 2, "job-key"⟩

def cleanup : RunRow where
  nodeId := 2
  argv := ["/usr/bin/apt-get", "clean"]
  timeoutSecs := 60
  outputCapBytes := 1024

/-- The payload an approval at `now` signs. -/
def cleanupJob (now : Int) : AgentJob :=
  let job : SignedJob := ⟨7, 1, 2, cleanup.argv, 60, 1024, now + JOB_CLAIM_WINDOW_SECS⟩
  ⟨7, job, ⟨"job-key", job⟩⟩

/-- The run is offered, claimed and executed; offered again by a coordinator that accepts every
claim, it is refused. -/
theorem jobs_authorised_once_offered_again :
    let honest : List Event := [.request .admin 7 cleanup, .approve 0 .owner 7 true 1000,
      .store 0 1001, .poll "job-key", .handlePoll 0 1009, .receiveOffers [cleanupJob 1000],
      .job 1010, .handleClaim 1 1011, .receiveClaim true, .stop]
    let replayed := honest ++ [.poll "job-key", .replay [cleanupJob 1000], .job 1500, .acceptClaim]
    (run (World.step depot) {} honest).executed = [⟨(cleanupJob 1000).payload, 1010, 1⟩] ∧
      (∀ x ∈ (run (World.step depot) {} honest).executed,
        Authorised depot (run (World.step depot) {} honest).coord.audit x) ∧
      ((run (World.step depot) {} replayed).executed.map fun x => x.job.runId).Nodup := by
  intro honest replayed
  exact ⟨by decide +kernel, ((jobs_authorised_once depot honest).1 (by decide +kernel)).1,
    (jobs_authorised_once depot replayed).2 (by decide +kernel)⟩

/-- Two approvals of the run overlap: both sign, with different expiries.  Once the first has
passed, the ledger has forgotten the run, and the second payload runs it again. -/
theorem signed_twice_runs_twice :
    let events : List Event := [.request .admin 7 cleanup, .approve 0 .owner 7 true 1000,
      .approve 1 .owner 7 true 1100, .store 0 1101, .poll "job-key", .replay [cleanupJob 1000],
      .job 1200, .acceptClaim, .stop, .poll "job-key", .replay [cleanupJob 1100], .job 1650,
      .acceptClaim]
    (run (World.step depot) {} events).executed.map (fun x => (x.job.runId, x.verifiedAt)) =
      [(7, 1200), (7, 1650)] := by
  decide +kernel

end BlakTail.Remote
