import BlakTail.Control.Agent

/-!
# Faithful Control Updates

One agent polling the coordinator: the organisation changes, polls are answered and
their answers delivered or lost, the coordinator forgets what it told whom, and the
agent sometimes recovers with a full fetch.  Every device operation succeeds here.

The state keeps one thing the program does not: `told`, the ids listed in the update
the agent processed last.  The invariant `Synced` ties it to both sides, so that a
delta is always relative to the list the agent was told.  That makes a delta
faithful exactly as far as `DeltaSuffices` goes: additions and removals.
-/

namespace BlakTail.Control

open Foundation

structure World where
  revision : Nat
  views : ControlViewMap := ∅
  host : Host := {}
  told : List Uuid := []

/-- What may happen next. -/
inductive Event where
  /-- A change of the organisation that bumps its revision. -/
  | change
  /-- An update poll.  `expired`: a key overlap ended just now.  `snapshot`: the full map
  compiled for the answer. -/
  | poll (expired : Bool) (snapshot : Snapshot) (delivered : Bool)
  /-- The recovery fetch of the full map. -/
  | fetch (snapshot : Snapshot) (delivered : Bool)
  /-- Another node's poll, answered from its own organisation. -/
  | otherPoll (other : Uuid) (revision : Nat) (ids : List Uuid)
  | restart

namespace World

variable (node : Uuid) {snapshot : Snapshot} {body : PeersResponse} {views : ControlViewMap}
  {expired : Bool}

variable (w : World)

/-- `list_updates` once it stops waiting: `none` is 204, nothing changed. -/
def listUpdates (expired : Bool) (snapshot : Snapshot) : Option (ControlViewMap × PeersResponse) :=
  let since := w.host.state.controlRevision
  if since = 0 ∨ since < w.revision ∨ expired = true then
    some (controlUpdateFromSnapshot w.views node w.revision snapshot since (some 2) expired)
  else none

/-- An overlap that ends bumps the revision before the poll reads it. -/
def expireOverlaps (expired : Bool) : World :=
  if expired then { w with revision := w.revision + 1 } else w

/-- The agent processes a response; all operations succeed. -/
def deliver (body : PeersResponse) : World :=
  { w with host := w.host.process {} body }

def step : Event → World
  | .change => { w with revision := w.revision + 1 }
  | .poll expired snapshot delivered =>
    let w := w.expireOverlaps expired
    match w.listUpdates node expired snapshot with
    | none => w
    | some (views, body) =>
      let w := { w with views := views }
      if delivered then { w.deliver body with told := idSet snapshot.peers } else w
  | .fetch snapshot delivered => if delivered then w.deliver { snapshot with } else w
  | .otherPoll other revision ids =>
    if other = node then w
    else { w with views := (rememberAndBaseline w.views other revision ids).1 }
  | .restart => { w with views := ∅ }

/-- The full list behind the response the agent processes in this event, if any. -/
def processed : Event → Option (List Peer)
  | .poll expired snapshot true =>
    ((w.expireOverlaps expired).listUpdates node expired snapshot).map fun _ => snapshot.peers
  | .fetch snapshot true => some snapshot.peers
  | _ => none

/-- What an event must meet for its response to be faithful.  A delivered delta must
suffice, and a recovery fetch must list no peer the last update did not. -/
def Meets : Event → Prop
  | .poll expired snapshot true =>
    ∀ views body, (w.expireOverlaps expired).listUpdates node expired snapshot =
      some (views, body) →
      body.kind = some .delta → DeltaSuffices w.host.state.peers w.told snapshot.peers
  | .fetch snapshot true => ∀ peer ∈ snapshot.peers, peer.id ∈ w.told
  | _ => True

/-! ## The invariant -/

/-- The agent holds only peers of the last update, with disjoint routes; the
coordinator's memory for the agent's revision is that update. -/
structure Synced (w : World) : Prop where
  disjoint : RouteDisjoint w.host.state.peers
  told : ∀ row ∈ w.host.state.peers, row.id ∈ w.told
  revision : w.host.state.controlRevision ≤ w.revision
  view : ∀ ids, w.views.lookup node = some (w.host.state.controlRevision, ids) →
    0 < w.host.state.controlRevision → ids = w.told

/-- The part of the invariant every run keeps: the coordinator's memory for the agent's
revision is the update the agent processed last. -/
structure Recalls (w : World) : Prop where
  revision : w.host.state.controlRevision ≤ w.revision
  view : ∀ ids, w.views.lookup node = some (w.host.state.controlRevision, ids) →
    0 < w.host.state.controlRevision → ids = w.told

variable {node} {w : World}

theorem Synced.recalls (hw : Synced node w) : Recalls node w :=
  ⟨hw.revision, hw.view⟩

theorem Recalls.synced (hw : Recalls node w) (hdisjoint : RouteDisjoint w.host.state.peers)
    (htold : ∀ row ∈ w.host.state.peers, row.id ∈ w.told) : Synced node w :=
  ⟨hdisjoint, htold, hw.revision, hw.view⟩

theorem expireOverlaps_recalls (hw : Recalls node w) (expired : Bool) :
    Recalls node (w.expireOverlaps expired) := by
  unfold expireOverlaps
  split
  · exact ⟨Nat.le_succ_of_le hw.revision, hw.view⟩
  · exact hw

@[simp] theorem expireOverlaps_host (w : World) (expired : Bool) :
    (w.expireOverlaps expired).host = w.host := by
  unfold expireOverlaps
  split <;> rfl

@[simp] theorem expireOverlaps_told (w : World) (expired : Bool) :
    (w.expireOverlaps expired).told = w.told := by
  unfold expireOverlaps
  split <;> rfl

/-- What an answered poll is. -/
structure Answers (node : Uuid) (w : World) (expired : Bool) (snapshot : Snapshot)
    (views : ControlViewMap) (body : PeersResponse) : Prop where
  /-- There was something to report. -/
  changed : w.host.state.controlRevision = 0 ∨ w.host.state.controlRevision < w.revision ∨
    expired
  /-- The coordinator remembers the list it compiled. -/
  remembered : views.lookup node = some (w.revision, idSet snapshot.peers)
  revision : body.revision = some w.revision
  /-- The answer is the full list, or the delta from the ids remembered for the agent's
  revision. -/
  content : (body.kind = some .snapshot ∧ body.peers = snapshot.peers) ∨
    (0 < w.host.state.controlRevision ∧ body.kind = some .delta ∧
      ∃ ids, w.views.lookup node = some (w.host.state.controlRevision, ids) ∧
        deltaFrom ids w.revision snapshot = some body)

theorem listUpdates_answers (h : w.listUpdates node expired snapshot = some (views, body)) :
    Answers node w expired snapshot views body := by
  unfold listUpdates at h
  dsimp only at h
  split at h
  · next hchanged =>
    unfold controlUpdateFromSnapshot rememberAndBaseline at h
    simp only [Option.some.injEq, Prod.mk.injEq] at h
    obtain ⟨hviews, hbody⟩ := h
    -- Whatever is sent, the ids listed now are remembered for this node.
    have hremembered : views.lookup node = some (w.revision, idSet snapshot.peers) := by
      rw [← hviews]
      exact AList.lookup_insert _
    cases hview : w.views.lookup node with
    | none =>
      rw [hview] at hbody
      subst hbody
      exact ⟨hchanged, hremembered, rfl, .inl ⟨rfl, rfl⟩⟩
    | some view =>
      obtain ⟨baseline, ids⟩ := view
      rw [hview] at hbody
      dsimp only at hbody
      split at hbody
      · next hdelta =>
        -- The memory is of the revision the agent names, so a delta may be sent.
        obtain ⟨-, -, hsince, rfl⟩ := hdelta
        cases hfrom : deltaFrom ids w.revision snapshot with
        | none =>
          rw [hfrom] at hbody
          subst hbody
          exact ⟨hchanged, hremembered, rfl, .inl ⟨rfl, rfl⟩⟩
        | some delta =>
          rw [hfrom] at hbody
          cases hbody
          obtain ⟨hkind, hrevision, -⟩ := deltaFrom_eq hfrom
          exact ⟨hchanged, hremembered, hrevision, .inr ⟨hsince, hkind, ids, hview, hfrom⟩⟩
      · subst hbody
        exact ⟨hchanged, hremembered, rfl, .inl ⟨rfl, rfl⟩⟩
  · cases h

theorem listUpdates_isSome :
    (w.listUpdates node expired snapshot).isSome ↔
      w.host.state.controlRevision = 0 ∨ w.host.state.controlRevision < w.revision ∨
        expired := by
  unfold listUpdates
  dsimp only
  split
  · next hchanged => exact iff_of_true rfl hchanged
  · next hchanged => exact iff_of_false Bool.false_ne_true hchanged

/-- An answered poll of a known agent carries a newer revision than the agent's. -/
theorem Answers.newer (hw : Recalls node w)
    (h : Answers node (w.expireOverlaps expired) expired snapshot views body)
    (hknown : 0 < w.host.state.controlRevision) :
    w.host.state.controlRevision < (w.expireOverlaps expired).revision := by
  have hle := hw.revision
  have hchanged := h.changed
  rw [expireOverlaps_host] at hchanged
  rcases hchanged with hzero | hnewer | hexpired
  · omega
  · exact hnewer
  · simp only [expireOverlaps, hexpired, if_true]
    omega

theorem applied_default : Host.Applied {} := ⟨rfl, rfl, rfl, rfl⟩

/-- A processed answer has the effect of the full list behind it. -/
theorem Answers.target (hw : Synced node w) (h : Answers node w expired snapshot views body)
    (hmeets : body.kind = some .delta → DeltaSuffices w.host.state.peers w.told snapshot.peers) :
    w.host.target body = installableWireguardPeers w.host.state.peers snapshot.peers := by
  unfold Host.target
  rcases h.content with ⟨hkind, hpeers⟩ | ⟨hsince, hkind, ids, hview, hdelta⟩
  · rw [applyControlPeers, if_neg (by simp [hkind]), hpeers]
  · -- The remembered ids are the ids last told, so the delta is relative to the list held.
    have hids := hw.view ids hview hsince
    subst hids
    exact applyControlPeers_delta (hmeets hkind) hw.told hw.disjoint hdelta

section

variable (hw : Recalls node w)
include hw

/-- A peer the agent was told of and the list behind the answer lacks is gone from the
agent's list, delta or not. -/
theorem Answers.drops (h : Answers node w expired snapshot views body) {uuid : Uuid}
    (htold : uuid ∈ w.told) (hgone : uuid ∉ idSet snapshot.peers) {row : Peer}
    (hrow : row ∈ w.host.target body) : row.id ≠ uuid := by
  have hlisted := installable_subset _ _ hrow
  rcases h.content with ⟨hkind, hpeers⟩ | ⟨hsince, -, ids, hview, hdelta⟩
  · rw [applyControlPeers, if_neg (by simp [hkind]), hpeers] at hlisted
    rintro rfl
    exact hgone (mem_idSet.mpr ⟨row, hlisted, rfl⟩)
  · -- The delta is relative to the ids the agent was told.
    exact id_notMem_of_deltaFrom hdelta (hw.view ids hview hsince ▸ htold) hgone hlisted

/-! ## Every event keeps the memory -/

theorem poll_recalls (expired : Bool) (snapshot : Snapshot) (delivered : Bool) :
    Recalls node (w.step node (.poll expired snapshot delivered)) := by
  have hexpired := expireOverlaps_recalls hw expired
  unfold step
  dsimp only
  split
  · exact hexpired
  · next views body hanswer =>
    have hanswers := listUpdates_answers hanswer
    cases delivered with
    | false =>
      -- A lost answer is remembered under a revision the agent does not have.
      refine ⟨hexpired.revision, fun ids hview hknown => ?_⟩
      have hlookup : views.lookup node =
          some ((w.expireOverlaps expired).host.state.controlRevision, ids) := hview
      have hknown' : 0 < (w.expireOverlaps expired).host.state.controlRevision := hknown
      rw [expireOverlaps_host] at hlookup hknown'
      have hnewer := hanswers.newer hw hknown'
      rw [hanswers.remembered, Option.some.injEq, Prod.mk.injEq] at hlookup
      omega
    | true =>
      have hrevision : ((w.expireOverlaps expired).host.process {} body).state.controlRevision =
          (w.expireOverlaps expired).revision := by
        rw [Host.process_controlRevision, hanswers.revision]
        rfl
      refine ⟨le_of_eq hrevision, fun ids hview _ => ?_⟩
      have hlookup : views.lookup node = some (_, ids) := hview
      rw [hanswers.remembered, Option.some.injEq, Prod.mk.injEq] at hlookup
      exact hlookup.2.symm

theorem fetch_recalls (snapshot : Snapshot) (delivered : Bool) :
    Recalls node (w.step node (.fetch snapshot delivered)) := by
  cases delivered with
  | false => exact hw
  | true =>
    -- A full fetch carries no revision: the coordinator's memory still fits the agent's.
    have hrevision : (w.host.process {} { snapshot with }).state.controlRevision =
        w.host.state.controlRevision := Host.process_controlRevision _ _ _
    refine ⟨hrevision.trans_le hw.revision, fun ids hview hknown => ?_⟩
    have hview' : w.views.lookup node =
        some ((w.host.process {} { snapshot with }).state.controlRevision, ids) := hview
    have hknown' : 0 < (w.host.process {} { snapshot with }).state.controlRevision := hknown
    rw [hrevision] at hview' hknown'
    exact hw.view ids hview' hknown'

theorem otherPoll_recalls (other : Uuid) (revision : Nat) (ids : List Uuid) :
    Recalls node (w.step node (.otherPoll other revision ids)) := by
  unfold step
  dsimp only
  split
  · exact hw
  · next hother =>
    refine ⟨hw.revision, fun known hview hknown => ?_⟩
    -- The other node's entry is not ours; making room for it may clear ours.
    have hlookup : ((rememberAndBaseline w.views other revision ids).1).lookup node =
        some (w.host.state.controlRevision, known) := hview
    unfold rememberAndBaseline at hlookup
    rw [Table.lookup_insert_if, if_neg (Ne.symm hother)] at hlookup
    split at hlookup
    · simp at hlookup
    · exact hw.view known hlookup hknown

end

/-- Every event keeps the memory, whatever it compiles. -/
theorem step_recalls (w : World) (event : Event) (hw : Recalls node w) :
    Recalls node (w.step node event) := by
  cases event with
  | change => exact ⟨Nat.le_succ_of_le hw.revision, hw.view⟩
  | poll expired snapshot delivered => exact poll_recalls hw expired snapshot delivered
  | fetch snapshot delivered => exact fetch_recalls hw snapshot delivered
  | otherPoll other revision ids => exact otherPoll_recalls hw other revision ids
  | restart =>
    refine ⟨hw.revision, fun ids hview _ => ?_⟩
    exact absurd hview (by simp [step])

/-! ## Every event that meets the conditions keeps the invariant -/

theorem expireOverlaps_synced (hw : Synced node w) (expired : Bool) :
    Synced node (w.expireOverlaps expired) := by
  refine (expireOverlaps_recalls hw.recalls expired).synced ?_ ?_
  · rw [expireOverlaps_host]
    exact hw.disjoint
  · rw [expireOverlaps_host, expireOverlaps_told]
    exact hw.told

/-- What a delivered answer that meets the conditions leaves on the agent. -/
theorem poll_peers (hw : Synced node w) (hmeets : w.Meets node (.poll expired snapshot true))
    (hanswer : (w.expireOverlaps expired).listUpdates node expired snapshot = some (views, body)) :
    ((w.expireOverlaps expired).host.process {} body).state.peers =
      installableWireguardPeers w.host.state.peers snapshot.peers := by
  have htarget := (listUpdates_answers hanswer).target (expireOverlaps_synced hw expired)
    (by simpa using hmeets views body hanswer)
  rw [Host.process_peers applied_default, htarget, expireOverlaps_host]

/-- The effect of one processed response. -/
theorem step_faithful (hw : Synced node w) {event : Event} (hmeets : w.Meets node event)
    {peers : List Peer} (hprocessed : w.processed node event = some peers) :
    (w.step node event).host.state.peers = installableWireguardPeers w.host.state.peers peers ∧
      ∀ peer ∈ peers, peer.id ∈ (w.step node event).told := by
  cases event with
  | poll expired snapshot delivered =>
    cases delivered with
    | false => cases hprocessed
    | true =>
      -- The answer is a snapshot, or a delta that suffices for the list it abbreviates.
      obtain ⟨answer, hanswer, rfl⟩ := Option.map_eq_some_iff.mp hprocessed
      unfold step
      simp only [hanswer, if_true, deliver]
      exact ⟨poll_peers hw hmeets hanswer, fun peer hpeer => mem_idSet.mpr ⟨peer, hpeer, rfl⟩⟩
  | fetch snapshot delivered =>
    cases delivered with
    | false => cases hprocessed
    | true =>
      cases hprocessed
      exact ⟨Host.process_peers applied_default, hmeets⟩
  | change | otherPoll other revision ids | restart => cases hprocessed

/-- Where no response is processed, the agent and what it was told stay. -/
theorem step_unprocessed {event : Event} (hprocessed : w.processed node event = none) :
    (w.step node event).host = w.host ∧ (w.step node event).told = w.told := by
  cases event with
  | poll expired snapshot delivered =>
    unfold step
    dsimp only
    split
    · exact ⟨w.expireOverlaps_host expired, w.expireOverlaps_told expired⟩
    · next views body hanswer =>
      cases delivered with
      | false => exact ⟨w.expireOverlaps_host expired, w.expireOverlaps_told expired⟩
      | true =>
        rw [processed, hanswer] at hprocessed
        cases hprocessed
  | fetch snapshot delivered =>
    cases delivered with
    | false => exact ⟨rfl, rfl⟩
    | true => cases hprocessed
  | otherPoll other revision ids =>
    unfold step
    dsimp only
    split <;> exact ⟨rfl, rfl⟩
  | change | restart => exact ⟨rfl, rfl⟩

/-- Every event that meets the conditions keeps the invariant. -/
theorem step_synced (w : World) (event : Event) (hmeets : w.Meets node event)
    (hw : Synced node w) : Synced node (w.step node event) := by
  have hrecalls := step_recalls w event hw.recalls
  cases hprocessed : w.processed node event with
  | none =>
    obtain ⟨hhost, htold⟩ := step_unprocessed hprocessed
    refine hrecalls.synced ?_ ?_
    · rw [hhost]
      exact hw.disjoint
    · rw [hhost, htold]
      exact hw.told
  | some peers =>
    obtain ⟨hpeers, htold⟩ := step_faithful hw hmeets hprocessed
    refine hrecalls.synced ?_ ?_
    · rw [hpeers]
      exact installable_disjoint _ _
    · rw [hpeers]
      exact fun row hrow => htold row (installable_subset _ _ hrow)

/-! ## Faithfulness -/

/-- An organisation at some revision and an agent that has seen nothing yet. -/
def start (revision : Nat) (state : NodeState) : World :=
  { revision := revision, host := { state := { state with controlRevision := 0, peers := [] } } }

theorem start_synced (revision : Nat) (state : NodeState) : Synced node (start revision state) :=
  ⟨List.Pairwise.nil, fun _ hnone => (nomatch hnone), Nat.zero_le _, fun _ hview => (nomatch hview)⟩

/-- **Faithful updates**: in every run whose events meet the conditions, processing a
response, delta or not, has the effect of processing the full list behind it. -/
theorem updates_faithful (node : Uuid) (revision : Nat) (state : NodeState) (events : List Event)
    (event : Event)
    (hmeets : Along (step node) (Meets node) (start revision state) (events ++ [event]))
    (peers : List Peer)
    (hprocessed : (run (step node) (start revision state) events).processed node event =
      some peers) :
    (run (step node) (start revision state) (events ++ [event])).host.state.peers =
      installableWireguardPeers (run (step node) (start revision state) events).host.state.peers
        peers := by
  obtain ⟨hbefore, hlast⟩ := along_append.mp hmeets
  have hsynced := run_invariant_along step_synced hbefore (start_synced revision state)
  rw [run_append]
  exact (step_faithful hsynced hlast.1 hprocessed).1

end World

/-! ## Two concrete runs -/

/-- A peer with one overlay address. -/
def peerRow (uuid : Uuid) (key : String) (address : String) (ingress : PeerIngress) : Peer :=
  { id := uuid, wgPublicKey := key, allowedIps := [address], ingress := some ingress }

/-- The agent learns one peer, which may send everything; then the organisation changes. -/
def firstPeerKnown : List Event :=
  [.poll false { peers := [peerRow 1 "A" "100.64.0.2/32" { all := true }] } true, .change]

/-- A second peer is added and nothing else changes. -/
def secondPeerAdded : Event :=
  .poll false
    { peers := [peerRow 1 "A" "100.64.0.2/32" { all := true },
        peerRow 2 "B" "100.64.0.3/32" { all := true }] } true

/-- A second peer is added, and the first loses its grant in the same update. -/
def secondPeerAddedFirstRevoked : Event :=
  .poll false
    { peers := [peerRow 1 "A" "100.64.0.2/32" {}, peerRow 2 "B" "100.64.0.3/32" { all := true }] }
    true

theorem secondPeerAdded_suffices :
    DeltaSuffices [peerRow 1 "A" "100.64.0.2/32" { all := true }] [1]
      [peerRow 1 "A" "100.64.0.2/32" { all := true },
        peerRow 2 "B" "100.64.0.3/32" { all := true }] where
  ids := by decide
  keys := by decide
  unchanged := by decide
  ownKeys := by decide
  heldBack := by decide
  idOrder := by unfold Ascending; decide

/-- The delta of an addition is faithful. -/
theorem updates_faithful_addition :
    (run (World.step 9) (World.start 1 {}) (firstPeerKnown ++ [secondPeerAdded])).host.state.peers =
      installableWireguardPeers
        (run (World.step 9) (World.start 1 {}) firstPeerKnown).host.state.peers
        [peerRow 1 "A" "100.64.0.2/32" { all := true },
          peerRow 2 "B" "100.64.0.3/32" { all := true }] := by
  refine World.updates_faithful 9 1 {} firstPeerKnown secondPeerAdded ?_ _ (by decide +kernel)
  refine ⟨fun views body hanswer hkind => ?_, trivial, fun _ _ _ _ => ?_, trivial⟩
  · -- The first poll has no revision to be relative to.
    rcases (World.listUpdates_answers hanswer).content with ⟨hfull, -⟩ | ⟨hsince, -⟩
    · rw [hfull] at hkind
      cases hkind
    · exact absurd hsince (by decide +kernel)
  · exact secondPeerAdded_suffices

/-- The delta of an addition hides that the first peer lost its grant: the agent keeps
letting it in. -/
theorem updates_unfaithful_regrant :
    let before := run (World.step 9) (World.start 1 {}) firstPeerKnown
    let after := run (World.step 9) (World.start 1 {})
      (firstPeerKnown ++ [secondPeerAddedFirstRevoked])
    before.processed 9 secondPeerAddedFirstRevoked =
      some [peerRow 1 "A" "100.64.0.2/32" {}, peerRow 2 "B" "100.64.0.3/32" { all := true }] ∧
    after.host.state.peers = [peerRow 1 "A" "100.64.0.2/32" { all := true },
      peerRow 2 "B" "100.64.0.3/32" { all := true }] ∧
    after.host.state.peers ≠ installableWireguardPeers before.host.state.peers
      [peerRow 1 "A" "100.64.0.2/32" {}, peerRow 2 "B" "100.64.0.3/32" { all := true }] := by
  decide +kernel

end BlakTail.Control
