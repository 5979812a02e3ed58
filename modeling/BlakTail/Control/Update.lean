import BlakTail.Control.Peer

/-!
# Control Updates

The coordinator's side of `GET /v1/nodes/:id/updates` (`control_update_from_snapshot`
with its memory of what each node was last told) and the agent's reading of the
answer (`apply_control_peers`).

A delta carries the rows whose id is new and the ids that went.  `applyControlPeers_delta`
says when merging it into the agent's list and installing the result is the same as
installing the full list it abbreviates.
-/

namespace BlakTail.Control

open Foundation

/-- Nodes whose last view is remembered; a new node beyond that clears the memory. -/
def MAX_CONTROL_VIEWS : Nat := 10000

/-- What each node was last told: a revision and the ids listed. -/
abbrev ControlViewMap := Table Uuid (Nat × List Uuid)

inductive UpdateKind where
  | snapshot
  | delta
  deriving DecidableEq

/-- The peer map `list_peers` compiles for a node, as far as the agent's tunnel depends
on it. -/
structure Snapshot where
  peers : List Peer := []
  assignedIps : List String := []
  retiringIps : List String := []
  deriving DecidableEq

/-- A response as the agent reads it.  The peers endpoint sends the map alone. -/
structure PeersResponse extends Snapshot where
  kind : Option UpdateKind := none
  added : List Peer := []
  removed : List Uuid := []
  revision : Option Nat := none
  deriving DecidableEq

def idSet (peers : List Peer) : List Uuid := collectBy id (peers.map Peer.id)

theorem mem_idSet {uuid : Uuid}
    {peers : List Peer} : uuid ∈ idSet peers ↔ ∃ peer ∈ peers, peer.id = uuid := by
  unfold idSet
  exact (mem_collectBy (fun _ _ _ _ heq => heq.symm) uuid).trans List.mem_map

/-! ## Coordinator -/

/-- Remember what a node is told now, and return what it was told before. -/
def rememberAndBaseline (views : ControlViewMap) (node : Uuid) (revision : Nat)
    (currentIds : List Uuid) : ControlViewMap × Option (Nat × List Uuid) :=
  let baseline := views.lookup node
  let views := if MAX_CONTROL_VIEWS ≤ views.size ∧ baseline.isNone then ∅ else views
  (views.insert node (revision, currentIds), baseline)

/-- The delta from the ids `previousIds` to `snapshot`, if anything was added or
removed. -/
def deltaFrom (previousIds : List Uuid) (revision : Nat) (snapshot : Snapshot) :
    Option PeersResponse :=
  let added := snapshot.peers.filter fun peer => !previousIds.contains peer.id
  let removed := previousIds.filter fun uuid => !(idSet snapshot.peers).contains uuid
  if !added.isEmpty || !removed.isEmpty then
    some { snapshot with
      peers := []
      kind := some .delta
      added := added
      removed := removed
      revision := some revision }
  else none

/-- The answer to an update poll for the full list `snapshot`: a delta if the client
asked for one and its revision is the remembered one, else the list itself. -/
def controlUpdateFromSnapshot (views : ControlViewMap) (node : Uuid) (revision : Nat)
    (snapshot : Snapshot) (since : Nat) (version : Option Nat) (forceSnapshot : Bool) :
    ControlViewMap × PeersResponse :=
  let (views, baseline) := rememberAndBaseline views node revision (idSet snapshot.peers)
  let full := { snapshot with kind := some .snapshot, revision := some revision }
  let delta := match baseline with
    | some (baselineRevision, previousIds) =>
      if version = some 2 ∧ forceSnapshot = false ∧ 0 < since ∧ baselineRevision = since then
        deltaFrom previousIds revision snapshot
      else none
    | none => none
  (views, delta.getD full)

/-! ## Agent -/

/-- The peer list a response stands for, given the agent's own list. -/
def applyControlPeers (current : List Peer) (body : PeersResponse) : List Peer :=
  if body.kind = some .delta then
    let kept := current.filter fun peer => !body.removed.contains peer.id
    extendBy Peer.id (collectBy Peer.id kept) body.added
  else body.peers

variable {current : List Peer} {body : PeersResponse} {revision : Nat} {snapshot : Snapshot}
  {known : List Uuid}

theorem deltaFrom_eq (hdelta : deltaFrom known revision snapshot = some body) :
    body.kind = some .delta ∧ body.revision = some revision ∧
      body.added = (snapshot.peers.filter fun peer => !known.contains peer.id) ∧
      body.removed = known.filter fun uuid => !(idSet snapshot.peers).contains uuid := by
  unfold deltaFrom at hdelta
  dsimp only at hdelta
  split at hdelta
  · cases hdelta
    exact ⟨rfl, rfl, rfl, rfl⟩
  · cases hdelta

/-- A row of the merged list is a row held that the delta does not remove, or a row it
adds. -/
theorem mem_applyControlPeers {row : Peer} (hdelta : body.kind = some .delta)
    (hrow : row ∈ applyControlPeers current body) :
    (row ∈ current ∧ row.id ∉ body.removed) ∨ row ∈ body.added := by
  rw [applyControlPeers, if_pos hdelta] at hrow
  refine (mem_of_mem_extendBy hrow).imp_left fun hkept => ?_
  simpa using (mem_of_mem_extendBy hkept).resolve_left List.not_mem_nil

/-- An id that a delta goes by and the list behind it lacks is not in the merged list. -/
theorem id_notMem_of_deltaFrom {uuid : Uuid}
    (hdelta : deltaFrom known revision snapshot = some body)
    (hknown : uuid ∈ known) (hgone : uuid ∉ idSet snapshot.peers) {row : Peer}
    (hrow : row ∈ applyControlPeers current body) : row.id ≠ uuid := by
  rintro rfl
  obtain ⟨hkind, -, hadds, hremoves⟩ := deltaFrom_eq hdelta
  rcases mem_applyControlPeers hkind hrow with ⟨-, hkept⟩ | hadded
  · rw [hremoves] at hkept
    exact hkept (List.mem_filter.mpr ⟨hknown, by simpa using hgone⟩)
  · rw [hadds] at hadded
    exact hgone (mem_idSet.mpr ⟨row, List.mem_of_mem_filter hadded, rfl⟩)

/-! ## When a delta stands for the full list -/

/-- The conditions under which a delta loses nothing: `installed` is the agent's list,
`known` the remembered ids and `peers` the full list. -/
structure DeltaSuffices (installed : List Peer) (known : List Uuid) (peers : List Peer) : Prop where
  /-- Ids and keys are distinct. -/
  ids : (peers.map Peer.id).Nodup
  keys : (peers.map Peer.wgPublicKey).Nodup
  /-- An installed peer that is still listed is listed unchanged. -/
  unchanged : ∀ row ∈ installed, ∀ peer ∈ peers, peer.id = row.id → peer = row
  /-- No other listed peer has the key of an installed one. -/
  ownKeys : ∀ row ∈ installed, ∀ peer ∈ peers, peer.wgPublicKey = row.wgPublicKey →
    peer.id = row.id
  /-- A listed peer the agent held back is still blocked by one it keeps. -/
  heldBack : ∀ peer ∈ peers, peer.id ∈ known → (∀ row ∈ installed, row.id ≠ peer.id) →
    ∃ row ∈ installed, row ∈ peers ∧ ∃ route ∈ peer.allowedIps, route ∈ row.allowedIps
  /-- New peers are listed in id order. -/
  idOrder : Ascending Peer.id (peers.filter fun peer => !known.contains peer.id)

namespace DeltaSuffices

variable {installed peers : List Peer}

/-- Ids tell listed rows apart. -/
theorem eq_of_id (h : DeltaSuffices installed known peers) {a b : Peer} (ha : a ∈ peers)
    (hb : b ∈ peers) (hid : a.id = b.id) : b = a :=
  (List.inj_on_of_nodup_map h.ids hb ha hid.symm)

/-- Of an installed row's key, the full list has that row or none. -/
theorem byKey_full (h : DeltaSuffices installed known peers) {row : Peer} (hrow : row ∈ installed) :
    byKey peers row.wgPublicKey = if decide (row ∈ peers) then some row else none := by
  by_cases hlisted : row ∈ peers
  · rw [byKey_eq_some h.keys hlisted]
    simp [hlisted]
  · simp only [hlisted, decide_false, Bool.false_eq_true, if_false]
    refine byKey_eq_none fun peer hpeer hkey => ?_
    exact hlisted (h.unchanged row hrow peer hpeer (h.ownKeys row hrow peer hpeer hkey) ▸ hpeer)

/-- The rows of the merged list. -/
theorem mem_merged (h : DeltaSuffices installed known snapshot.peers)
    (hknown : ∀ row ∈ installed, row.id ∈ known)
    (hdelta : deltaFrom known revision snapshot = some body) (peer : Peer) :
    peer ∈ applyControlPeers installed body ↔
      peer ∈ snapshot.peers ∧ (peer ∈ installed ∨ peer.id ∉ known) := by
  obtain ⟨hkind, -, hadded, hremoved⟩ := deltaFrom_eq hdelta
  -- A kept row is listed: its id is known, so it would have been removed otherwise.
  have hkept : ∀ row, row ∈ installed.filter (fun row => !body.removed.contains row.id) ↔
      row ∈ installed ∧ row ∈ snapshot.peers := by
    intro row
    simp only [hremoved, List.mem_filter, Bool.not_eq_true', List.contains_eq_mem,
      decide_eq_false_iff_not, not_and, not_not]
    constructor
    · rintro ⟨hrow, hlisted⟩
      obtain ⟨other, hother, hid⟩ := mem_idSet.mp (hlisted (hknown row hrow))
      exact ⟨hrow, h.unchanged row hrow other hother hid ▸ hother⟩
    · rintro ⟨hrow, hlisted⟩
      exact ⟨hrow, fun _ => mem_idSet.mpr ⟨row, hlisted, rfl⟩⟩
  have hcollect : ∀ row, row ∈ collectBy Peer.id
      (installed.filter fun row => !body.removed.contains row.id) ↔
        row ∈ installed ∧ row ∈ snapshot.peers := by
    intro row
    rw [mem_collectBy, hkept]
    intro a ha b hb hid
    exact h.eq_of_id ((hkept a).mp ha).2 ((hkept b).mp hb).2 hid
  rw [applyControlPeers, if_pos hkind, mem_extendBy, hcollect, hadded]
  · simp only [List.mem_filter, Bool.not_eq_true', List.contains_eq_mem, decide_eq_false_iff_not]
    rw [and_comm, ← and_or_left]
  · intro a ha b hb hid
    rw [hadded] at ha hb
    refine h.eq_of_id (List.mem_of_mem_filter ha) ?_ hid
    rcases List.mem_append.mp hb with hb | hb
    · exact ((hcollect b).mp hb).2
    · exact List.mem_of_mem_filter hb

/-- A row of the full list outside the merged one, or in both and not new, is left out
of the second pass. -/
theorem skips_known (h : DeltaSuffices installed known peers) {peer : Peer} (hpeer : peer ∈ peers)
    (hid : peer.id ∈ known) :
    ((installed.filter fun row => decide (row ∈ peers)).foldl Install.add {}).skips peer := by
  by_cases hinstalled : peer ∈ installed
  · refine .inl ((Install.mem_seen_foldl_add _ _ _).mpr (.inr ⟨peer, ?_, rfl⟩))
    exact List.mem_filter.mpr ⟨hinstalled, decide_eq_true hpeer⟩
  · have hheld : ∀ row ∈ installed, row.id ≠ peer.id := fun row hrow heq =>
      hinstalled (h.unchanged row hrow peer hpeer heq.symm ▸ hrow)
    obtain ⟨row, hrow, hlisted, route, hroute, hclaims⟩ := h.heldBack peer hpeer hid hheld
    refine .inr (Install.blocks_iff.mpr ⟨route, hroute, ?_⟩)
    refine (Install.mem_claimed_foldl_add _ _ _).mpr (.inr ⟨row, ?_, hclaims⟩)
    exact List.mem_filter.mpr ⟨hrow, decide_eq_true hlisted⟩

/-- Installing any list with the kept and the new rows of `peers` is installing
`peers`. -/
theorem installable_eq (h : DeltaSuffices installed known peers)
    (hdisjoint : RouteDisjoint installed)
    {merged : List Peer} (hasc : Ascending Peer.id merged)
    (hmem : ∀ peer, peer ∈ merged ↔ peer ∈ peers ∧ (peer ∈ installed ∨ peer.id ∉ known)) :
    installableWireguardPeers installed merged = installableWireguardPeers installed peers := by
  have hkeys : (merged.map Peer.wgPublicKey).Nodup := by
    refine hasc.nodup.map_on fun a ha b hb hkey => ?_
    exact List.inj_on_of_nodup_map h.keys ((hmem a).mp ha).1 ((hmem b).mp hb).1 hkey
  have hlookup : ∀ row ∈ installed,
      byKey merged row.wgPublicKey = if decide (row ∈ peers) then some row else none := by
    intro row hrow
    rw [← h.byKey_full hrow]
    by_cases hlisted : row ∈ peers
    · rw [byKey_eq_some h.keys hlisted,
        byKey_eq_some hkeys ((hmem row).mpr ⟨hlisted, .inl hrow⟩)]
    · have hnone : ∀ peer ∈ peers, peer.wgPublicKey ≠ row.wgPublicKey := fun peer hpeer hkey =>
        hlisted (h.unchanged row hrow peer hpeer (h.ownKeys row hrow peer hpeer hkey) ▸ hpeer)
      rw [byKey_eq_none hnone, byKey_eq_none fun peer hpeer => hnone peer ((hmem peer).mp hpeer).1]
  -- The first pass ends in the same place; the second sees the same new rows.
  unfold installableWireguardPeers
  rw [Install.foldl_keepCurrent hlookup hdisjoint,
    Install.foldl_keepCurrent (fun row hrow => h.byKey_full hrow) hdisjoint]
  have hnew : merged.filter (fun peer => !known.contains peer.id) =
      peers.filter fun peer => !known.contains peer.id := by
    refine (hasc.filter _).eq_of_mem_iff h.idOrder fun peer => ?_
    simp only [List.mem_filter, hmem, Bool.not_eq_true', List.contains_eq_mem,
      decide_eq_false_iff_not]
    constructor
    · rintro ⟨⟨hpeer, -⟩, hid⟩
      exact ⟨hpeer, hid⟩
    · rintro ⟨hpeer, hid⟩
      exact ⟨⟨hpeer, .inr hid⟩, hid⟩
  have hmerged := Install.foldl_addDesired_filter (fun peer => !known.contains peer.id)
    hkeys (Install.SameFor.refl merged _) fun peer hpeer hkeep =>
      h.skips_known ((hmem peer).mp hpeer).1 (by simpa using hkeep)
  have hfull := Install.foldl_addDesired_filter (fun peer => !known.contains peer.id)
    h.keys (Install.SameFor.refl peers _) fun peer hpeer hkeep =>
      h.skips_known hpeer (by simpa using hkeep)
  rw [hmerged, hfull, hnew]

end DeltaSuffices

/-- Merging a delta and installing the result installs the full list. -/
theorem applyControlPeers_delta {installed : List Peer}
    (h : DeltaSuffices installed known snapshot.peers)
    (hknown : ∀ row ∈ installed, row.id ∈ known) (hdisjoint : RouteDisjoint installed)
    (hdelta : deltaFrom known revision snapshot = some body) :
    installableWireguardPeers installed (applyControlPeers installed body) =
      installableWireguardPeers installed snapshot.peers := by
  refine h.installable_eq hdisjoint ?_ (h.mem_merged hknown hdelta)
  rw [applyControlPeers, if_pos (deltaFrom_eq hdelta).1]
  exact extendBy_ascending (extendBy_ascending List.Pairwise.nil _) _

end BlakTail.Control
