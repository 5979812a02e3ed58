import BlakTail.Posture.Deadline

/-!
# Long Polls and Lapses

The machine around `next_deadline`.  Every device polls for updates.  An iteration of a
poll first calls `due`, which bumps the control revision once when the stored deadline has
come; a device whose revision is older then compiles a new peer map, and the compile
records its own deadline.
-/

namespace BlakTail.Posture

open Foundation Access

/-! ## The organisation's row -/

/-- The columns of `orgs` that re-evaluation uses. -/
structure OrgRow where
  postureNextEvalAt : Option Int := none
  controlRevision : Nat := 1
  deriving DecidableEq

/-- `posture::record_deadline`: lower the stored deadline. -/
def recordDeadline (row : OrgRow) : Option Int → OrgRow
  | none => row
  | some deadline =>
    match row.postureNextEvalAt with
    | none => { row with postureNextEvalAt := some deadline }
    | some stored =>
      if deadline < stored then { row with postureNextEvalAt := some deadline } else row

/-- `posture::due`: when the stored deadline has come, clear it and bump the revision. -/
def due (row : OrgRow) (now : Int) : OrgRow :=
  match row.postureNextEvalAt with
  | none => row
  | some stored =>
    if stored ≤ now then
      { postureNextEvalAt := none, controlRevision := row.controlRevision + 1 }
    else row

variable (row : OrgRow)

theorem recordDeadline_le {d : Int}
    {deadline : Int} (hd : row.postureNextEvalAt = some d ∨ deadline = d) :
    ∃ d', (recordDeadline row (some deadline)).postureNextEvalAt = some d' ∧ d' ≤ d := by
  unfold recordDeadline
  cases hstored : row.postureNextEvalAt with
  | none =>
    rcases hd with hd | rfl
    · simp [hstored] at hd
    · exact ⟨_, rfl, le_rfl⟩
  | some stored =>
    dsimp only
    rcases hd with hd | rfl
    · cases hstored.symm.trans hd
      split_ifs with hlt
      · exact ⟨_, rfl, hlt.le⟩
      · exact ⟨_, hstored, le_rfl⟩
    · split_ifs with hlt
      · exact ⟨_, rfl, le_rfl⟩
      · exact ⟨_, hstored, not_lt.mp hlt⟩

theorem recordDeadline_keeps {d : Int}
    (deadline : Option Int) (hd : row.postureNextEvalAt = some d) :
    ∃ d', (recordDeadline row deadline).postureNextEvalAt = some d' ∧ d' ≤ d := by
  cases deadline with
  | none => exact ⟨d, hd, le_rfl⟩
  | some deadline => exact recordDeadline_le row (.inl hd)

@[simp] theorem recordDeadline_revision (deadline : Option Int) :
    (recordDeadline row deadline).controlRevision = row.controlRevision := by
  unfold recordDeadline
  split
  · rfl
  · split
    · rfl
    · split_ifs <;> rfl

/-- Either `due` bumps the revision, or it changes nothing and the deadline is still ahead. -/
theorem due_cases (now : Int) :
    (due row now).controlRevision = row.controlRevision + 1 ∨
      due row now = row ∧ ∀ d, row.postureNextEvalAt = some d → now < d := by
  unfold due
  cases hstored : row.postureNextEvalAt with
  | none => exact .inr ⟨rfl, nofun⟩
  | some stored =>
    dsimp only
    split_ifs with hle
    · exact .inl rfl
    · exact .inr ⟨rfl, fun d hd => Option.some.inj hd ▸ not_le.mp hle⟩

/-! ## The machine -/

/-- A peer map as its device holds it: the revision it was compiled at, and the two clock
readings of the compile. -/
structure Snapshot where
  since : Nat
  loaded : Int
  granted : Int
  deriving DecidableEq

/-- The row, and what each device holds. -/
structure Coordinator where
  row : OrgRow := {}
  held : String → Option Snapshot := fun _ => none

/-- One iteration of a device's long poll: when `due` runs, and the clock readings of the
compile in case there is one.  `expired` says that an address overlap ended, which forces a
compile. -/
structure Poll where
  node : String
  polledAt : Int
  loaded : Int
  granted : Int
  expired : Bool := false
  loaded_after : polledAt ≤ loaded := by decide
  granted_after : loaded ≤ granted := by decide

/-- What may happen to the row and to the devices. -/
inductive Event where
  /-- An iteration of a long poll. -/
  | poll (iteration : Poll)
  /-- Something else bumps the revision. -/
  | bump
  /-- Something else records a deadline, such as a published service. -/
  | record (deadline : Option Int)
  /-- A device forgets what it holds and asks for a snapshot. -/
  | restart (node : String)

namespace Coordinator

variable (s : Coordinator)

/-- The revision a device sends. -/
def since (node : String) : Nat := ((s.held node).map Snapshot.since).getD 0

/-- Whether the iteration finds something new for its device. -/
def changed (iteration : Poll) : Bool :=
  s.since iteration.node = 0 ||
    s.since iteration.node < (due s.row iteration.polledAt).controlRevision || iteration.expired

/-- Give a device a snapshot, or take it away. -/
def hold (node : String) (snapshot : Option Snapshot) : Coordinator :=
  { s with held := fun n => if n = node then snapshot else s.held n }

/-- The state after one event in an organisation whose data stays the same. -/
def step (org : Organisation) (s : Coordinator) : Event → Coordinator
  | .poll iteration =>
    let row := due s.row iteration.polledAt
    if s.changed iteration then
      { s with row := recordDeadline row ((org.load iteration.loaded).nextDeadline org.acl) }.hold
        iteration.node (some {
          since := row.controlRevision
          loaded := iteration.loaded
          granted := iteration.granted })
    else { s with row := row }
  | .bump => { s with row.controlRevision := s.row.controlRevision + 1 }
  | .record deadline => { s with row := recordDeadline s.row deadline }
  | .restart node => s.hold node none

end Coordinator

open Coordinator

/-! ## What the stored deadline covers -/

/-- At `t`, the results are not those of the snapshot any more. -/
def Snapshot.Lapsed (org : Organisation) (snapshot : Snapshot) (t : Int) : Prop :=
  snapshot.granted ≤ t ∧ org.results t t ≠ org.results snapshot.loaded snapshot.granted

/-- A re-evaluation is stored for no later than any lapse of the snapshot. -/
def Snapshot.Scheduled (org : Organisation) (row : OrgRow) (snapshot : Snapshot) : Prop :=
  ∀ t, snapshot.Lapsed org t → ∃ d, row.postureNextEvalAt = some d ∧ d ≤ t

/-- The event does not compile in the last valid second of an inclusive limit. -/
def Timely (org : Organisation) (s : Coordinator) : Event → Prop
  | .poll iteration => s.changed iteration → iteration.loaded ∉ org.lastSeconds
  | _ => True

/-- Every snapshot is superseded by a newer revision, or its lapses are scheduled. -/
def Covered (org : Organisation) (s : Coordinator) : Prop :=
  ∀ node snapshot, s.held node = some snapshot → snapshot.since < s.row.controlRevision ∨
    snapshot.since = s.row.controlRevision ∧ snapshot.Scheduled org s.row

section Machine

variable {org : Organisation} {s : Coordinator} {snapshot : Snapshot} {d : Int}

theorem Organisation.Within.before {l : Int}
    {t u : Int} (ht : org.Within l t) (hlu : l ≤ u) (hut : u ≤ t) :
    org.Within l u :=
  ⟨hlu, fun d hd => lt_of_le_of_lt hut (ht.2 d hd)⟩

/-- A compile schedules its own lapses. -/
theorem compile_scheduled (hclosed : org.AgesClosed) (hl : snapshot.loaded ∉ org.lastSeconds)
    (horder : snapshot.loaded ≤ snapshot.granted) (row : OrgRow) :
    snapshot.Scheduled org
      (recordDeadline row ((org.load snapshot.loaded).nextDeadline org.acl)) := by
  rintro t ⟨hgranted, hlapsed⟩
  by_contra hnone
  have hlt := le_trans horder hgranted
  have hwithin : org.Within snapshot.loaded t := by
    refine ⟨hlt, fun d hd => not_le.mp fun hdt => hnone ?_⟩
    obtain ⟨d', hstored, hle⟩ := recordDeadline_le row (.inr (rfl : d = d))
    exact ⟨d', hd ▸ hstored, le_trans hle hdt⟩
  -- Before the deadline the results are those of the load, read at `t` or at the compile.
  have hnow := Organisation.results_steady hclosed hl hwithin hwithin
  have hthen := Organisation.results_steady hclosed hl (hwithin.before le_rfl hlt)
    (hwithin.before horder hgranted)
  exact hlapsed (hnow.trans hthen.symm)

section

variable (h : Covered org s)
include h

theorem Covered.since_le {node : String} (hheld : s.held node = some snapshot) :
    snapshot.since ≤ s.row.controlRevision :=
  (h node snapshot hheld).elim le_of_lt fun hsince => hsince.1.le

theorem Covered.record (deadline : Option Int) :
    Covered org { s with row := recordDeadline s.row deadline } := by
  intro node snapshot hheld
  rw [recordDeadline_revision]
  refine (h node snapshot hheld).imp id fun ⟨hsince, hscheduled⟩ => ⟨hsince, fun t ht => ?_⟩
  obtain ⟨d, hd, hle⟩ := hscheduled t ht
  obtain ⟨d', hd', hle'⟩ := recordDeadline_keeps s.row deadline hd
  exact ⟨d', hd', le_trans hle' hle⟩

theorem Covered.due (now : Int) : Covered org { s with row := Posture.due s.row now } := by
  rcases due_cases s.row now with hbump | ⟨hsame, -⟩
  · exact fun node snapshot hheld => .inl (hbump ▸ Nat.lt_succ_of_le (h.since_le hheld))
  · rw [hsame]
    exact h

theorem Covered.hold {node : String} {snapshot : Option Snapshot}
    (hnew : ∀ new, snapshot = some new → new.since = s.row.controlRevision ∧
      new.Scheduled org s.row) :
    Covered org (s.hold node snapshot) := by
  intro n held hheld
  unfold Coordinator.hold at hheld
  dsimp only at hheld
  split_ifs at hheld with hn
  · exact .inr (hnew held hheld)
  · exact h n held hheld

end

/-- A timely event keeps every snapshot covered. -/
theorem step_covered (hclosed : org.AgesClosed) (event : Event) (htimely : Timely org s event)
    (h : Covered org s) : Covered org (s.step org event) := by
  cases event with
  | poll iteration =>
    have hdue := h.due iteration.polledAt
    unfold step
    dsimp only
    split_ifs with hchanged
    · -- The new snapshot has the newest revision, and its compile has just recorded.
      refine (hdue.record _).hold fun new hnew => ?_
      cases hnew
      exact ⟨(recordDeadline_revision _ _).symm,
        compile_scheduled hclosed (htimely hchanged) iteration.granted_after _⟩
    · exact hdue
  | bump => exact fun _ _ hheld => .inl (Nat.lt_succ_of_le (h.since_le hheld))
  | record deadline => exact h.record deadline
  | restart node => exact h.hold nofun

/-! ## After an iteration -/

theorem due_ahead {row : OrgRow} {now : Int} (hd : (due row now).postureNextEvalAt = some d) :
    now < d := by
  unfold due at hd
  cases hstored : row.postureNextEvalAt with
  | none => simp [hstored] at hd
  | some stored =>
    simp only [hstored] at hd
    split_ifs at hd with hle
    exact Option.some.inj (hstored.symm.trans hd) ▸ not_le.mp hle

theorem recordDeadline_origin {row : OrgRow} {deadline : Option Int}
    (hd : (recordDeadline row deadline).postureNextEvalAt = some d) :
    row.postureNextEvalAt = some d ∨ deadline = some d := by
  unfold recordDeadline at hd
  split at hd
  · exact .inl hd
  · split at hd
    · exact .inr hd
    · split_ifs at hd
      · exact .inr hd
      · exact .inl hd

/-- After an iteration, what is stored lies after the second it ran in. -/
theorem poll_ahead {iteration : Poll}
    (hd : (s.step org (.poll iteration)).row.postureNextEvalAt = some d) :
    iteration.polledAt < d := by
  unfold step at hd
  dsimp only at hd
  split_ifs at hd
  · rcases recordDeadline_origin hd with hdue | hnext
    · exact due_ahead hdue
    · have hmem := (List.min?_eq_some_iff.mp hnext).1
      exact lt_of_le_of_lt iteration.loaded_after (of_decide_eq_true (List.mem_filter.mp hmem).2)
  · exact due_ahead hd

/-- After an iteration, its device holds the newest revision. -/
theorem poll_current {iteration : Poll}
    (hheld : (s.step org (.poll iteration)).held iteration.node = some snapshot) :
    ¬ snapshot.since < (s.step org (.poll iteration)).row.controlRevision := by
  unfold step at *
  dsimp only at *
  split_ifs at * with hchanged
  · simp only [Coordinator.hold, if_true, Option.some.injEq] at hheld
    subst hheld
    simp [Coordinator.hold]
  · have hsince : s.since iteration.node = snapshot.since := by
      unfold since
      rw [show s.held iteration.node = some snapshot from hheld]
      rfl
    simp only [changed, hsince, Bool.or_eq_true, not_or] at hchanged
    simpa using hchanged.1.2

/-- **Lapses are recompiled.**  From any state in which what the devices hold is older than
the last change of the organisation's data, and over any timely events that end with an
iteration of a poll: a snapshot that no newer revision supersedes has its lapses scheduled;
a snapshot that has lapsed by the iteration is superseded; and what the polling device
holds is what holds up to the second of the iteration, results and grants. -/
theorem lapses_recompiled (org : Organisation) (s : Coordinator) (hclosed : org.AgesClosed)
    (hstart : ∀ node snapshot, s.held node = some snapshot → snapshot.since < s.row.controlRevision)
    (events : List Event) (iteration : Poll)
    (htimely : Along (step org) (Timely org) s (events ++ [.poll iteration])) :
    let after := run (step org) s (events ++ [.poll iteration])
    (∀ node snapshot, after.held node = some snapshot →
      snapshot.since = after.row.controlRevision → snapshot.Scheduled org after.row) ∧
    (∀ node snapshot t, after.held node = some snapshot → snapshot.Lapsed org t →
      t ≤ iteration.polledAt → snapshot.since < after.row.controlRevision) ∧
    ∀ snapshot, after.held iteration.node = some snapshot →
      ∀ t, snapshot.granted ≤ t → t ≤ iteration.polledAt →
        org.results t t = org.results snapshot.loaded snapshot.granted ∧
        ∀ source destination sshUsersEnforced,
          org.ingress t t source destination sshUsersEnforced =
            org.ingress snapshot.loaded snapshot.granted source destination sshUsersEnforced := by
  intro after
  have hcovered : Covered org after :=
    run_invariant_along (fun s event => step_covered hclosed event) htimely
      fun node snapshot hheld => .inl (hstart node snapshot hheld)
  have hafter : after = (run (step org) s events).step org (.poll iteration) :=
    run_append ..
  have hlapsed : ∀ node snapshot t, after.held node = some snapshot → snapshot.Lapsed org t →
      t ≤ iteration.polledAt → snapshot.since < after.row.controlRevision := by
    intro node snapshot t hheld hlapse ht
    rcases hcovered node snapshot hheld with hlt | ⟨-, hscheduled⟩
    · exact hlt
    · -- A deadline for the lapse would have come, and `due` leaves none that has.
      obtain ⟨d, hd, hle⟩ := hscheduled t hlapse
      exact absurd (poll_ahead (hafter ▸ hd)) (not_lt.mpr (le_trans hle ht))
  refine ⟨fun node snapshot hheld hsince => ?_, hlapsed, fun snapshot hheld t hgranted ht => ?_⟩
  · rcases hcovered node snapshot hheld with hlt | ⟨-, hscheduled⟩
    · exact absurd hlt (hsince ▸ lt_irrefl _)
    · exact hscheduled
  · have hresults : org.results t t = org.results snapshot.loaded snapshot.granted := by
      by_contra hne
      have hlt := hlapsed iteration.node snapshot t hheld ⟨hgranted, hne⟩ ht
      exact poll_current (hafter ▸ hheld) (hafter ▸ hlt)
    exact ⟨hresults, Organisation.ingress_of_results hresults⟩

end Machine

/-! ## An organisation at the boundary -/

/-- An office laptop whose credential was issued at 1000. -/
def laptop : NodeFacts :=
  { id := "laptop", tags := [.office], createdAt := 1000, credentialExpiresAt := 100000 }

/-- A till in the store. -/
def till : NodeFacts :=
  { id := "till", tags := [.store], createdAt := 1000, credentialExpiresAt := 100000 }

/-- Credentials may be a minute old. -/
def freshCredential : StoredCheck :=
  { version := 1, definition := { maxCredentialAgeSecs := some 60 } }

/-- The office may reach the store with a fresh credential. -/
def freshAcl : Acl where
  defaults := .deny
  rules := [{ action := .allow, srcTags := [.office], dstTags := [.store], posture := ["fresh"] }]

def shop : Organisation where
  checks := [("fresh", freshCredential)]
  facts := [laptop, till]
  acl := freshAcl
  checks_valid := by decide
  facts_dated := by
    simp only [List.forall_mem_cons]
    have hdated : Dated 1000 := ⟨by decide, by decide⟩
    exact ⟨dated_of_bare hdated hdated rfl, dated_of_bare hdated hdated rfl, by simp⟩
  acl_valid := ⟨0, by decide⟩

/-- An iteration whose clock readings fall into one second. -/
def pollAt (node : String) (now : Int) : Event :=
  .poll { node := node, polledAt := now, loaded := now, granted := now,
          loaded_after := le_rfl, granted_after := le_rfl }

/-- The laptop's grant, compiled at 1000, is superseded once the till polls at 1061. -/
theorem lapses_recompiled_laptop :
    let after := run (step shop) {} ([pollAt "laptop" 1000] ++ [pollAt "till" 1061])
    after.held "laptop" = some { since := 1, loaded := 1000, granted := 1000 } ∧
      1 < after.row.controlRevision := by
  have hheld : (run (step shop) {}
      ([pollAt "laptop" 1000] ++ [pollAt "till" 1061])).held "laptop" =
      some { since := 1, loaded := 1000, granted := 1000 } := by decide
  have htimely : Along (step shop) (Timely shop) {}
      ([pollAt "laptop" 1000] ++ [pollAt "till" 1061]) :=
    ⟨fun _ => by decide, fun _ => by decide, trivial⟩
  have hrecompiled := lapses_recompiled shop {} (by decide) (nofun) _ _ htimely
  exact ⟨hheld, hrecompiled.2.1 "laptop" _ 1061 hheld ⟨by decide, by decide⟩ (by decide)⟩

/-- **The boundary second.**  The laptop's grant holds until 1060.  The poll at 1060 fires
the deadline, compiles the grant again as still valid, and stores no deadline.  The laptop
polls on, and nothing is ever compiled again. -/
theorem lapse_survives_boundary :
    let after := run (step shop) {}
      [pollAt "laptop" 1000, pollAt "laptop" 1060, pollAt "laptop" 1061, pollAt "laptop" 5000]
    after.held "laptop" = some { since := 2, loaded := 1060, granted := 1060 } ∧
      after.row = { postureNextEvalAt := none, controlRevision := 2 } ∧
      shop.results 1061 1061 ≠ shop.results 1060 1060 ∧
      (shop.ingress 1060 1060 laptop till true).all ∧
      (shop.ingress 5000 5000 laptop till true).all = false := by
  decide

end BlakTail.Posture
