import BlakTail.Control.Directory

/-!
# Expired Peers and Long Polls

The coordinator's long poll around the peer map.  A turn of the loop in `list_updates` runs
the sweeps, reads the revision, and compiles a new map only if the revision has moved or a
key overlap ended.  The map itself is compiled by the clock.
-/

namespace BlakTail.Control

open Foundation Access World

/-- The rows, and the coordinator and agent of `World`. -/
structure Fleet where
  directory : Directory
  world : World

/-- One turn of the agent's poll: when the sweeps run, and the compile if there is one. -/
structure Turn where
  polledAt : Int
  compile : Compile
  compiled_after : polledAt ≤ compile.now := by decide

inductive Answer where
  /-- The device's own row does not pass. -/
  | refused
  /-- Nothing new: 204, or another turn while there is time to wait. -/
  | noContent
  | update (body : PeersResponse)
  deriving DecidableEq

/-- What may happen next. -/
inductive Fleet.Event where
  /-- Any other request, and what a poll records before its first turn: the rows become
  whatever they become, and the revision moves or not. -/
  | write (directory : Directory) (bumps : Nat)
  /-- A turn of the agent's poll; the answer, if there is one, may be lost. -/
  | poll (turn : Turn) (delivered : Bool)
  /-- The recovery fetch of the full map. -/
  | fetch (compile : Compile) (delivered : Bool)
  /-- A turn of another device's poll, and the ids it is told if it is answered. -/
  | otherPoll (other : Uuid) (now : Int) (ids : Option (List Uuid))
  | restart

def World.bump (w : World) (n : Nat) : World := { w with revision := w.revision + n }

namespace Fleet

/-! ## The sweeps -/

def bumped (s : Fleet) : Fleet := { s with world := s.world.bump 1 }

/-- `posture::due`, on the organisation's row. -/
def due (s : Fleet) (now : Int) : Fleet :=
  let row := Posture.due
    { postureNextEvalAt := s.directory.postureNextEvalAt, controlRevision := s.world.revision } now
  { directory := { s.directory with postureNextEvalAt := row.postureNextEvalAt }
    world := { s.world with revision := row.controlRevision } }

def moveTo (plan : RenumberPlan) (row : NodeRow) : NodeRow :=
  match plan.moves.lookup row.peer.id with
  | some addresses => { row with peer.allowedIps := addresses }
  | none => row

/-- `renumber::complete_due`: a staged plan whose window has ended is completed. -/
def completeDue (s : Fleet) (now : Int) : Fleet :=
  let ended := fun plan : RenumberPlan => decide (plan.windowEndsAt ≤ now)
  match s.directory.plans.find? ended with
  | none => s
  | some plan =>
    { s with directory := { s.directory.updateNodes (moveTo plan) with
        plans := s.directory.plans.eraseP ended } }.bumped

def expireLeases (s : Fleet) (now : Int) : Fleet :=
  if s.directory.leases.any (· ≤ now) then
    { s with directory.leases := s.directory.leases.filter (now < ·) }.bumped
  else s

def routers (d : Directory) : List NodeRow :=
  d.nodes.filter fun row => row.advertises && !row.revoked && !row.deleted

/-- The routers seen lately, in the order of their ids. -/
def online (d : Directory) (now : Int) : List Uuid :=
  idSet (((routers d).filter fun row =>
    row.lastSeenAt.any fun seen => now - seen ≤ NODE_ONLINE_SECS).map NodeRow.peer)

/-- Whether it is time to look at the routers, and they are not those seen last. -/
def livenessChanged (d : Directory) (now : Int) : Bool :=
  match d.seen with
  | some (checked, before) => LIVENESS_CHECK_SECS ≤ now - checked && before ≠ online d now
  | none => !(routers d).isEmpty

def bumpOnRouterLivenessChange (s : Fleet) (now : Int) : Fleet :=
  let looks := s.directory.seen.all fun (checked, _) => LIVENESS_CHECK_SECS ≤ now - checked
  let looked := { s with
    directory.seen := if looks then some (now, online s.directory now) else s.directory.seen }
  if livenessChanged s.directory now then looked.bumped else looked

def overlapEnded (d : Directory) (now : Int) : Bool :=
  d.wgOnly.any fun row => row.overlapUntil.any (· ≤ now)

/-- `wg_only::expire_overlaps` on the rows. -/
def expireOverlaps (d : Directory) (now : Int) : Directory :=
  { d with wgOnly := d.wgOnly.map fun row =>
      if row.overlapUntil.any (· ≤ now) then
        { row with previousWgPublicKey := none, overlapUntil := none, overlapPeerId := none }
      else row }

/-- The sweeps that only move the revision. -/
def sweep (s : Fleet) (now : Int) : Fleet :=
  (((s.due now).completeDue now).expireLeases now).bumpOnRouterLivenessChange now

/-! ## The machine -/

variable (node : Uuid) {peer : Uuid}

/-- The full map behind the answer of a turn, compiled after the sweeps. -/
def compiled (s : Fleet) (turn : Turn) : Snapshot :=
  let d := expireOverlaps (s.sweep turn.polledAt).directory turn.polledAt
  (d.prepare node turn.compile).listPeers node turn.compile

def answer (s : Fleet) (turn : Turn) : Answer :=
  let swept := s.sweep turn.polledAt
  let expired := overlapEnded swept.directory turn.polledAt
  if !s.directory.accepts node turn.polledAt then .refused
  else
    match (swept.world.expireOverlaps expired).listUpdates node expired (s.compiled node turn) with
    | none => .noContent
    | some (_, body) =>
      if swept.directory.accepts node turn.compile.now then .update body else .refused

/-- One turn of the agent's poll, a full fetch, another device's poll, or any write to the rows. -/
def step (s : Fleet) : Fleet.Event → Fleet
  | .write directory bumps => { directory := directory, world := s.world.bump bumps }
  | .poll turn delivered =>
    let swept := s.sweep turn.polledAt
    let expired := overlapEnded swept.directory turn.polledAt
    let d := expireOverlaps swept.directory turn.polledAt
    match s.answer node turn with
    | .update _ =>
      { directory := d.prepare node turn.compile
        world := (swept.world.step node (.poll expired (s.compiled node turn) delivered)).bump
          (d.tombstones node turn.compile) }
    | .noContent => { directory := d, world := swept.world.expireOverlaps expired }
    | .refused =>
      if s.directory.accepts node turn.polledAt then
        { directory := d, world := swept.world.expireOverlaps expired }
      else s
  | .fetch compile delivered =>
    if s.directory.accepts node compile.now then
      let d := s.directory.prepare node compile
      { directory := d
        world := (s.world.step node (.fetch (d.listPeers node compile) delivered)).bump
          (s.directory.tombstones node compile) }
    else s
  | .otherPoll other now ids =>
    let swept := s.sweep now
    let w := swept.world.expireOverlaps (overlapEnded swept.directory now)
    { directory := expireOverlaps swept.directory now
      world := match ids with
        | some ids => w.step node (.otherPoll other w.revision ids)
        | none => w }
  | .restart =>
    { directory := { s.directory with seen := none }, world := s.world.step node .restart }

/-- An organisation, and an agent that has seen nothing yet. -/
def start (directory : Directory) (revision : Nat) (state : NodeState) : Fleet :=
  { directory := directory, world := World.start revision state }

/-! ## What the sweeps do -/

/-- The organisation's rows make some sweep move the revision now. -/
def Stirs (d : Directory) (now : Int) : Prop :=
  (∃ deadline, d.postureNextEvalAt = some deadline ∧ deadline ≤ now) ∨
    (∃ plan ∈ d.plans, plan.windowEndsAt ≤ now) ∨ (∃ lease ∈ d.leases, lease ≤ now) ∨
      livenessChanged d now

/-- Device rows get other addresses and nothing else. -/
def Readdresses (f : NodeRow → NodeRow) : Prop :=
  ∀ row, ∃ peer : Peer, peer.id = row.peer.id ∧ f row = { row with peer := peer }

/-- What a sweep can do: move the revision, exactly if it is `due`, and give devices other
addresses. -/
structure Sweeps (due : Prop) (s s' : Fleet) : Prop where
  world : ∃ n, s'.world = s.world.bump n ∧ (0 < n ↔ due)
  nodes : ∃ f, Readdresses f ∧ s'.directory.nodes = s.directory.nodes.map f
  wgOnly : s'.directory.wgOnly = s.directory.wgOnly

theorem Readdresses.comp {f : NodeRow → NodeRow}
    {g : NodeRow → NodeRow} (hf : Readdresses f) (hg : Readdresses g) :
    Readdresses (g ∘ f) := by
  intro row
  obtain ⟨peer, hid, hrow⟩ := hf row
  obtain ⟨peer', hid', hrow'⟩ := hg (f row)
  refine ⟨peer', ?_, ?_⟩
  · rw [hid', hrow, ← hid]
  · rw [Function.comp_apply, hrow', hrow]

variable {s s' : Fleet}

theorem Sweeps.trans {p q : Prop} {s'' : Fleet} (h : Sweeps p s s') (h' : Sweeps q s' s'') :
    Sweeps (p ∨ q) s s'' := by
  obtain ⟨n, hworld, hn⟩ := h.world
  obtain ⟨m, hworld', hm⟩ := h'.world
  obtain ⟨f, hf, hnodes⟩ := h.nodes
  obtain ⟨g, hg, hnodes'⟩ := h'.nodes
  refine ⟨⟨n + m, ?_, ?_⟩, ⟨g ∘ f, hf.comp hg, ?_⟩, h'.wgOnly.trans h.wgOnly⟩
  · rw [hworld', hworld, bump, bump, bump, Nat.add_assoc]
  · rw [← hn, ← hm]
    omega
  · rw [hnodes', hnodes, List.map_map]

/-- A sweep that leaves the devices alone and moves the revision by `n`. -/
theorem sweeps_of_bump {due : Prop} (n : Nat) (hworld : s'.world = s.world.bump n)
    (hdue : 0 < n ↔ due) (hnodes : s'.directory.nodes = s.directory.nodes)
    (hwgOnly : s'.directory.wgOnly = s.directory.wgOnly) : Sweeps due s s' :=
  ⟨⟨n, hworld, hdue⟩, ⟨id, fun row => ⟨row.peer, rfl, rfl⟩, by rw [hnodes, List.map_id]⟩, hwgOnly⟩

variable (s)

variable (now : Int)

theorem due_sweeps :
    Sweeps (∃ deadline, s.directory.postureNextEvalAt = some deadline ∧ deadline ≤ now) s
      (s.due now) := by
  cases hstored : s.directory.postureNextEvalAt with
  | none =>
    refine sweeps_of_bump 0 ?_ (by simp) rfl rfl
    simp [due, Posture.due, hstored, bump]
  | some stored =>
    by_cases hle : stored ≤ now
    · refine sweeps_of_bump 1 ?_ (by simp [hle]) rfl rfl
      simp [due, Posture.due, hstored, hle, bump]
    · refine sweeps_of_bump 0 ?_ (by simpa using hle) rfl rfl
      simp [due, Posture.due, hstored, hle, bump]

theorem moveTo_readdresses (plan : RenumberPlan) : Readdresses (moveTo plan) := by
  intro row
  unfold moveTo
  split
  · next addresses _ => exact ⟨{ row.peer with allowedIps := addresses }, rfl, rfl⟩
  · exact ⟨row.peer, rfl, rfl⟩

theorem completeDue_sweeps :
    Sweeps (∃ plan ∈ s.directory.plans, plan.windowEndsAt ≤ now) s (s.completeDue now) := by
  unfold completeDue
  dsimp only
  split
  · next hnone =>
    refine sweeps_of_bump 0 rfl ?_ rfl rfl
    simpa using hnone
  · next plan hplan =>
    have hended := List.find?_some hplan
    have hmem := List.mem_of_find?_eq_some hplan
    refine ⟨⟨1, rfl, iff_of_true Nat.one_pos ⟨plan, hmem, of_decide_eq_true hended⟩⟩,
      ⟨moveTo plan, moveTo_readdresses plan, rfl⟩, rfl⟩

theorem expireLeases_sweeps :
    Sweeps (∃ lease ∈ s.directory.leases, lease ≤ now) s (s.expireLeases now) := by
  unfold expireLeases
  split
  · next hany =>
    refine sweeps_of_bump 1 rfl ?_ rfl rfl
    simpa using hany
  · next hany =>
    refine sweeps_of_bump 0 rfl ?_ rfl rfl
    simpa using hany

theorem liveness_sweeps :
    Sweeps (livenessChanged s.directory now) s (s.bumpOnRouterLivenessChange now) := by
  unfold bumpOnRouterLivenessChange
  split
  · next hchanged => exact sweeps_of_bump 1 rfl (iff_of_true Nat.one_pos hchanged) rfl rfl
  · next hchanged => exact sweeps_of_bump 0 rfl (iff_of_false (lt_irrefl 0) hchanged) rfl rfl

/-- Which routers are online does not depend on addresses. -/
theorem livenessChanged_congr {f : NodeRow → NodeRow} {d : Directory}
    {d' : Directory} (hf : Readdresses f)
    (hnodes : d'.nodes = d.nodes.map f) (hseen : d'.seen = d.seen) (now : Int) :
    livenessChanged d' now = livenessChanged d now := by
  have hrouters : routers d' = (routers d).map f := by
    unfold routers
    rw [hnodes, List.filter_map]
    congr 2
    funext row
    obtain ⟨peer, -, hrow⟩ := hf row
    simp [hrow]
  have honline : online d' now = online d now := by
    unfold online idSet
    rw [hrouters, List.filter_map, List.map_map, List.map_map, List.map_map]
    congr 1
    rw [show ((fun row : NodeRow => row.lastSeenAt.any fun seen => now - seen ≤ NODE_ONLINE_SECS)
      ∘ f)
      = fun row => row.lastSeenAt.any fun seen => now - seen ≤ NODE_ONLINE_SECS from ?_]
    · refine List.map_congr_left fun row _ => ?_
      obtain ⟨peer, hid, hrow⟩ := hf row
      simp [hrow, hid]
    · funext row
      obtain ⟨peer, -, hrow⟩ := hf row
      simp [hrow]
  unfold livenessChanged
  rw [hseen, honline, hrouters, List.isEmpty_map]

/-- The sweeps move the revision exactly if one of them is due. -/
theorem sweep_sweeps : Sweeps (Stirs s.directory now) s (s.sweep now) := by
  have hdue := due_sweeps s now
  have hplans := completeDue_sweeps (s.due now) now
  have hleases := expireLeases_sweeps ((s.due now).completeDue now) now
  have hliveness := liveness_sweeps (((s.due now).completeDue now).expireLeases now) now
  -- No sweep touches the columns the next ones go by.
  have hsame : ((s.due now).completeDue now).directory.leases = s.directory.leases ∧
      ((s.due now).completeDue now).directory.seen = s.directory.seen := by
    unfold completeDue
    dsimp only
    split
    · exact ⟨rfl, rfl⟩
    · exact ⟨rfl, rfl⟩
  have hseen : (((s.due now).completeDue now).expireLeases now).directory.seen =
      s.directory.seen := by
    rw [← hsame.2]
    unfold expireLeases
    split
    · rfl
    · rfl
  obtain ⟨f, hf, hnodes⟩ := ((hdue.trans hplans).trans hleases).nodes
  rw [livenessChanged_congr hf hnodes hseen] at hliveness
  rw [hsame.1] at hleases
  exact hdue.trans (hplans.trans (hleases.trans hliveness))

variable {s} {now : Int}

theorem Sweeps.accepts {due : Prop} (h : Sweeps due s s') (node : Uuid) (now : Int) :
    s'.directory.accepts node now = s.directory.accepts node now := by
  obtain ⟨f, hf, hnodes⟩ := h.nodes
  unfold Directory.accepts
  rw [hnodes, List.any_map]
  congr 1
  funext row
  obtain ⟨peer, hid, hrow⟩ := hf row
  simp [hrow, hid]

theorem Sweeps.expired {due : Prop} (h : Sweeps due s s')
    (hexpired : s.directory.Expired peer now) : s'.directory.Expired peer now := by
  obtain ⟨f, hf, hnodes⟩ := h.nodes
  have hupdated : (s.directory.updateNodes f).Expired peer now := by
    apply hexpired.updateNodes
    · intro row
      obtain ⟨peer, hid, hrow⟩ := hf row
      rw [hrow, ← hid]
    · intro row
      obtain ⟨peer, -, hrow⟩ := hf row
      rw [hrow]
  refine ⟨?_, ?_⟩
  · rw [hnodes]
    exact hupdated.node
  · rw [h.wgOnly]
    exact hupdated.wgOnly

/-- Ending overlaps keeps ids and expiries. -/
theorem expireOverlaps_expired {d : Directory} (h : d.Expired peer now) (when : Int) :
    (expireOverlaps d when).Expired peer now where
  node := h.node
  wgOnly row hrow hid := by
    obtain ⟨before, hbefore, rfl⟩ := List.mem_map.mp hrow
    split at hid
    · next hended =>
      rw [if_pos hended]
      rcases hid with hid | hoverlap
      · exact h.wgOnly before hbefore (.inl hid)
      · cases hoverlap
    · next hended =>
      rw [if_neg hended]
      exact h.wgOnly before hbefore hid

/-- The map a turn compiles lists no peer that expired before the turn. -/
theorem compiled_lacks {turn : Turn} (hexpired : s.directory.Expired peer turn.polledAt)
    (node : Uuid) : peer ∉ idSet (s.compiled node turn).peers := by
  have hswept := (sweep_sweeps s turn.polledAt).expired hexpired
  have hended := expireOverlaps_expired hswept turn.polledAt
  exact ((hended.later turn.compiled_after).prepare node turn.compile).not_listed node

/-! ## The memory over whole runs -/

variable {node}

theorem bump_recalls {w : World} (hw : Recalls node w) (n : Nat) :
    Recalls node (w.bump n) :=
  ⟨le_trans hw.revision (Nat.le_add_right _ _), hw.view⟩

theorem sweep_recalls (hs : Recalls node s.world) (now : Int) :
    Recalls node (s.sweep now).world := by
  obtain ⟨n, hworld, -⟩ := (sweep_sweeps s now).world
  rw [hworld]
  exact bump_recalls hs n

variable (node) in
/-- The coordinator's memory is in step with what the agent was told. -/
def Remembers (s : Fleet) : Prop := Recalls node s.world

/-- Every event keeps the memory in step. -/
theorem step_recalls (s : Fleet) (event : Fleet.Event) (hs : Remembers node s) :
    Remembers node (s.step node event) := by
  show Recalls node (s.step node event).world
  cases event with
  | write directory bumps => exact bump_recalls hs bumps
  | poll turn delivered =>
    have hswept := sweep_recalls hs turn.polledAt
    unfold step
    dsimp only
    split
    · exact bump_recalls (World.step_recalls _ _ hswept) _
    · exact expireOverlaps_recalls hswept _
    · split
      · exact expireOverlaps_recalls hswept _
      · exact hs
  | fetch compile delivered =>
    unfold step
    dsimp only
    split
    · exact bump_recalls (World.step_recalls _ _ hs) _
    · exact hs
  | otherPoll other now ids =>
    have hswept := expireOverlaps_recalls (sweep_recalls hs now)
      (overlapEnded (s.sweep now).directory now)
    cases ids with
    | none => exact hswept
    | some ids => exact World.step_recalls _ (.otherPoll other _ ids) hswept
  | restart => exact World.step_recalls _ .restart hs

theorem run_recalls (directory : Directory) (revision : Nat) (state : NodeState)
    (events : List Fleet.Event) :
    Remembers node (run (step node) (start directory revision state) events) := by
  have hstart : Remembers node (start directory revision state) :=
    (start_synced revision state).recalls
  exact run_invariant step_recalls events hstart

/-! ## When an expired peer leaves -/

variable (node)

/-- Before the turn, the revision has moved past the agent's, or the rows make the turn move
it. -/
def Moved (s : Fleet) (now : Int) : Prop :=
  s.world.host.state.controlRevision = 0 ∨
    s.world.host.state.controlRevision < s.world.revision ∨ Stirs s.directory now ∨
      overlapEnded s.directory now

variable {node}

section

variable (hs : Recalls node s.world)
include hs

/-- A turn finds something new exactly if the revision moved or moves. -/
theorem listUpdates_isSome_iff (now : Int) (snapshot : Snapshot) :
    (((s.sweep now).world.expireOverlaps (overlapEnded (s.sweep now).directory now)).listUpdates
      node (overlapEnded (s.sweep now).directory now) snapshot).isSome ↔ s.Moved now := by
  have hsweeps := sweep_sweeps s now
  obtain ⟨n, hworld, hn⟩ := hsweeps.world
  have hended : overlapEnded (s.sweep now).directory now = overlapEnded s.directory now := by
    unfold overlapEnded
    rw [hsweeps.wgOnly]
  have hle := hs.revision
  rw [listUpdates_isSome, hworld, hended]
  unfold Moved
  rw [← hn]
  unfold bump World.expireOverlaps
  cases overlapEnded s.directory now with
  | true => simp
  | false =>
    -- With no overlap ended, the revision the turn reads is `n` past the one before it.
    simp only [Bool.false_eq_true, if_false, or_false]
    omega

/-- An accepted turn is answered with an update exactly if the revision moved or moves. -/
theorem answer_update_iff {turn : Turn} (haccepts : s.directory.accepts node turn.polledAt)
    (haccepts' : s.directory.accepts node turn.compile.now) :
    (∃ body, s.answer node turn = .update body) ↔ s.Moved turn.polledAt := by
  have hsame := (sweep_sweeps s turn.polledAt).accepts node turn.compile.now
  rw [← listUpdates_isSome_iff hs turn.polledAt (s.compiled node turn)]
  unfold answer
  dsimp only
  rw [haccepts, hsame, haccepts']
  cases listUpdates node _ _ (s.compiled node turn) with
  | none | some update => simp

/-- A turn answered with an update leaves the agent without any peer that had expired. -/
theorem update_drops {turn : Turn} {body : PeersResponse}
    (hanswer : s.answer node turn = .update body) (htold : peer ∈ s.world.told)
    (hexpired : s.directory.Expired peer turn.polledAt) :
    ∀ row ∈ (s.step node (.poll turn true)).world.host.state.peers, row.id ≠ peer := by
  have hswept := sweep_recalls hs turn.polledAt
  obtain ⟨n, hworld, -⟩ := (sweep_sweeps s turn.polledAt).world
  unfold step
  dsimp only
  rw [hanswer]
  unfold answer at hanswer
  dsimp only at hanswer
  generalize overlapEnded (s.sweep turn.polledAt).directory turn.polledAt = expired at *
  split at hanswer
  · cases hanswer
  · split at hanswer
    · cases hanswer
    · next views sent hlisted =>
      have hanswers := listUpdates_answers hlisted
      have hrecalls := expireOverlaps_recalls hswept expired
      -- The agent processes the answer with the list it held before the turn.
      intro row hrow
      unfold World.step at hrow
      simp only [hlisted, if_true, bump, deliver] at hrow
      rw [Host.process_peers applied_default] at hrow
      refine hanswers.drops hrecalls ?_ (compiled_lacks hexpired node) hrow
      rw [expireOverlaps_told, hworld]
      exact htold

end

/-- **Expired peers leave when the revision moves**: in every run, for a peer that the
agent's last update listed and whose credential or expiry has passed, a turn of the agent's
poll returns an update after which the peer is gone exactly if the revision had moved past
the agent's, or something due in the turn moves it: a posture deadline, a renumber window, a
connector lease, a router gone or back, or a key overlap. -/
theorem expired_peer_leaves (node : Uuid) (directory : Directory) (revision : Nat)
    (state : NodeState) (events : List Fleet.Event) (turn : Turn) (peer : Uuid)
    (haccepts : (run (step node) (start directory revision state) events).directory.accepts node
      turn.compile.now)
    (htold : peer ∈ (run (step node) (start directory revision state) events).world.told)
    (hexpired : (run (step node) (start directory revision state) events).directory.Expired peer
      turn.polledAt) :
    let s := run (step node) (start directory revision state) events
    ((∃ body, s.answer node turn = .update body) ∧
      ∀ row ∈ (s.step node (.poll turn true)).world.host.state.peers, row.id ≠ peer) ↔
      s.Moved turn.polledAt := by
  intro s
  have hrecalls : Recalls node s.world := run_recalls directory revision state events
  have haccepted := Directory.accepts_earlier haccepts turn.compiled_after
  rw [← answer_update_iff hrecalls haccepted haccepts]
  refine ⟨And.left, fun hupdate => ⟨hupdate, ?_⟩⟩
  obtain ⟨body, hanswer⟩ := hupdate
  exact update_drops hrecalls hanswer htold hexpired

/-! ## A quiet organisation -/

/-- Two devices and a WireGuard-only peer; everything but the agent expires at 100. -/
def quietDirectory : Directory where
  nodes :=
    [{ peer := peerRow 9 "N" "100.64.0.9/32" {}, credentialExpiresAt := 100000 },
      { peer := peerRow 1 "A" "100.64.0.2/32" {}, credentialExpiresAt := 100 }]
  wgOnly := [{ peer := peerRow 2 "B" "100.64.0.3/32" {}, expiresAt := some 100 }]

/-- A turn whose compile reads the same second. -/
def turnAt (now : Int) : Turn where
  polledAt := now
  compile := { now := now }
  compiled_after := Int.le_refl now

/-- The first poll of the agent. -/
def firstPoll : List Fleet.Event := [.poll (turnAt 10) true]

/-- Nothing changes after the first poll.  At 200 both peers have expired, and the poll is
answered 204 with both still in the agent's list. -/
theorem expired_peer_stays :
    let s := run (step 9) (start quietDirectory 1 {}) firstPoll
    s.directory.accepts 9 200 ∧ s.world.told = [1, 2] ∧
      s.world.host.state.controlRevision = 1 ∧
      s.directory.Expired 1 200 ∧ s.directory.Expired 2 200 ∧
      s.answer 9 (turnAt 200) = .noContent ∧
      (s.step 9 (.poll (turnAt 200) true)).world.host.state.peers.map Peer.id = [1, 2] := by
  decide +kernel

/-- The same, but some other change moves the revision after the first poll. -/
theorem expired_peer_leaves_after_change :
    let s := run (step 9) (start quietDirectory 1 {}) (firstPoll ++ [.write quietDirectory 1])
    (∃ body, s.answer 9 (turnAt 200) = .update body) ∧
      ∀ row ∈ (s.step 9 (.poll (turnAt 200) true)).world.host.state.peers, row.id ≠ 1 :=
  (expired_peer_leaves 9 quietDirectory 1 {} (firstPoll ++ [.write quietDirectory 1]) (turnAt 200)
    1 (by decide +kernel) (by decide +kernel) (by decide +kernel)).mpr
    (.inr (.inl (by decide +kernel)))

end Fleet

end BlakTail.Control
