import BlakTail.Control.Faithful
import BlakTail.Posture.Polling

/-!
# The Directory Behind the Peer Map

The rows `list_peers` compiles a peer map from: managed devices and WireGuard-only peers.
The compile reads the clock: a device whose credential has expired is no candidate, and a
WireGuard-only peer past its `expires_at` is not exported.

What the compile adds to a row it lists (approved and resource routes, share ports,
services, post-quantum policy) is a `Completion`: any function of the row that keeps its id.
-/

namespace BlakTail.Control

open Foundation Access

/-- A row of `nodes`: what it is listed as, whom it stands for, and the columns that decide
whether it is listed. -/
structure NodeRow where
  peer : Peer
  subject : Subject := {}
  revoked : Bool := false
  deleted : Bool := false
  suspended : Bool := false
  credentialExpiresAt : Int
  ephemeral : Bool := false
  lastSeenAt : Option Int := none
  /-- `advertised_routes_json<>'[]'`. -/
  advertises : Bool := false

/-- A row of `wireguard_only_peers`.  While a key is being replaced, the previous key is
exported under an id of its own. -/
structure WgOnlyRow where
  peer : Peer
  tags : List DeviceTag := []
  revoked : Bool := false
  expiresAt : Option Int := none
  previousWgPublicKey : Option String := none
  overlapUntil : Option Int := none
  overlapPeerId : Option Uuid := none

/-- A staged renumber plan: when its window ends, and each device's new addresses. -/
structure RenumberPlan where
  windowEndsAt : Int
  moves : List (Uuid × List String) := []

/-- The organisation's rows, in the order of their names, and what the process remembers of
its routers: when it looked last, and which were online. -/
structure Directory where
  nodes : List NodeRow := []
  wgOnly : List WgOnlyRow := []
  acl : Acl := {}
  plans : List RenumberPlan := []
  /-- When each connector lease expires. -/
  leases : List Int := []
  postureNextEvalAt : Option Int := none
  seen : Option (Int × List Uuid) := none

/-- What the compile makes of a listed row: another row of the same id. -/
structure Completion where
  apply : Peer → Peer := id
  id_eq : ∀ peer, (apply peer).id = peer.id := by intro; rfl

/-- What one compile of a peer map reads besides the rows: the clock, the posture results of
each device, what the requester asked for, and the deadline it finds. -/
structure Compile where
  now : Int
  posture : Uuid → Subject → Subject := fun _ subject => subject
  ipv6 : Bool := true
  sshUsersEnforced : Bool := false
  complete : Completion := {}
  retiring : List (Uuid × List String) := []
  deadline : Option Int := none

/-- A device that has been quiet this long is offline. -/
def NODE_ONLINE_SECS : Int := 90

/-- An ephemeral device that has been quiet this long is deleted. -/
def EPHEMERAL_OFFLINE_SECS : Int := 24 * 60 * 60

/-- How often routers are looked at. -/
def LIVENESS_CHECK_SECS : Int := 2

/-- An address as text is IPv6 when it has a colon. -/
def isIpv6 (address : String) : Bool := address.toList.contains ':'

namespace Directory

/-! ## Compiling a peer map -/

/-- Whether a request of `node` passes the checks on its own row. -/
def accepts (d : Directory) (node : Uuid) (now : Int) : Bool :=
  d.nodes.any fun row => row.peer.id = node && !row.revoked && !row.deleted && !row.suspended &&
    now < row.credentialExpiresAt

variable {d : Directory} {now : Int} {peer : Uuid} {c : Compile}

/-- A row that passes has passed up to now. -/
theorem accepts_earlier {node : Uuid} {later : Int} (h : d.accepts node later)
    (hle : now ≤ later) : d.accepts node now := by
  obtain ⟨row, hrow, hpasses⟩ := List.any_eq_true.mp h
  refine List.any_eq_true.mpr ⟨row, hrow, ?_⟩
  simp only [Bool.and_eq_true, decide_eq_true_eq] at hpasses ⊢
  exact ⟨hpasses.1, lt_of_le_of_lt hle hpasses.2⟩

variable (d)

/-- The candidate query: every other device in good standing. -/
def candidates (node : Uuid) (now : Int) : List NodeRow :=
  d.nodes.filter fun row => row.peer.id ≠ node && !row.revoked && !row.deleted &&
    !row.suspended && now < row.credentialExpiresAt

def exported (row : WgOnlyRow) (now : Int) : List Peer :=
  match row.previousWgPublicKey, row.overlapUntil, row.overlapPeerId with
  | some previous, some overlapUntil, some overlapId =>
    if now < overlapUntil && previous ≠ "" then
      [row.peer, { row.peer with id := overlapId, wgPublicKey := previous }]
    else [row.peer]
  | _, _, _ => [row.peer]

/-- `active_export_rows`, each with the tags of its peer. -/
def activeExportRows (now : Int) : List (Peer × List DeviceTag) :=
  (d.wgOnly.filter fun row => !row.revoked && row.expiresAt.all fun expiry => now < expiry).flatMap
    fun row => (exported row now).map (·, row.tags)

/-- Who asks: the subject of the requester's own row. -/
def source (node : Uuid) (c : Compile) : Subject :=
  ((d.nodes.find? fun row => row.peer.id = node).map fun row =>
    c.posture node row.subject).getD {}

/-- The row of a candidate, if the policy connects the two. -/
def nodePeer (source : Subject) (c : Compile) (row : NodeRow) : Option Peer :=
  let destination := c.posture row.peer.id row.subject
  if d.acl.allows c.now source destination then
    some (c.complete.apply { row.peer with
      ingress := some (d.acl.peerIngressFor c.now destination source c.sshUsersEnforced) })
  else none

/-- The row of an exported peer, if the policy connects the two and an address is left. -/
def exportPeer (source : Subject) (c : Compile) :
    Peer × List DeviceTag → Option Peer
  | (peer, tags) =>
    let destination : Subject := { role := .member, tags := tags }
    let allowedIps := peer.allowedIps.filter fun route => c.ipv6 || !isIpv6 route
    if !d.acl.allows c.now source destination || allowedIps.isEmpty then none
    else
      some (c.complete.apply { peer with
        allowedIps := allowedIps
        ingress := some (d.acl.peerIngressFor c.now destination source c.sshUsersEnforced) })

def assignedIps (node : Uuid) (c : Compile) : List String :=
  (((d.nodes.find? fun row => row.peer.id = node).map fun row => row.peer.allowedIps).getD
    []).filter
    fun address => c.ipv6 || !isIpv6 address

def listPeers (node : Uuid) (c : Compile) : Snapshot :=
  let source := d.source node c
  let peers := (d.candidates node c.now).filterMap (d.nodePeer source c) ++
    (d.activeExportRows c.now).filterMap (d.exportPeer source c)
  { peers := peers
    assignedIps := d.assignedIps node c
    retiringIps := ((c.retiring.filter fun entry =>
      entry.1 = node || (idSet peers).contains entry.1).flatMap Prod.snd).filter
        fun address => c.ipv6 || !isIpv6 address }

/-! ## What a compile writes -/

/-- A change of some columns of every device row. -/
def updateNodes (f : NodeRow → NodeRow) : Directory :=
  { d with nodes := d.nodes.map f }

/-- The requester was seen now. -/
def touch (node : Uuid) (now : Int) : Directory :=
  d.updateNodes fun row => if row.peer.id = node then { row with lastSeenAt := some now } else row

/-- An ephemeral device that has been quiet for too long. -/
def stale (now : Int) (row : NodeRow) : Bool :=
  row.ephemeral && !row.deleted &&
    row.lastSeenAt.all fun lastSeen => lastSeen < now - EPHEMERAL_OFFLINE_SECS

/-- `expire_ephemeral_nodes`: stale devices are tombstoned. -/
def expireEphemeralNodes (now : Int) : Directory :=
  d.updateNodes fun row =>
    if stale now row then { row with deleted := true, revoked := true } else row

/-- The rows as the compile reads and leaves them. -/
def prepare (node : Uuid) (c : Compile) : Directory :=
  let d := (d.touch node c.now).expireEphemeralNodes c.now
  let row := Posture.recordDeadline { postureNextEvalAt := d.postureNextEvalAt } c.deadline
  { d with postureNextEvalAt := row.postureNextEvalAt }

/-- Each tombstone bumps the revision. -/
def tombstones (node : Uuid) (c : Compile) : Nat :=
  ((d.touch node c.now).nodes.filter (stale c.now)).length

variable {d}

/-! ## Expired rows -/

/-- By now the credential of the device, or the expiry of the WireGuard-only peer, that
`peer` stands for has passed: on every row that could list it. -/
structure Expired (d : Directory) (peer : Uuid) (now : Int) : Prop where
  node : ∀ row ∈ d.nodes, row.peer.id = peer → row.credentialExpiresAt ≤ now
  wgOnly : ∀ row ∈ d.wgOnly, row.peer.id = peer ∨ row.overlapPeerId = some peer →
    ∃ expiry ∈ row.expiresAt, expiry ≤ now

instance (d : Directory) (peer : Uuid) (now : Int) : Decidable (d.Expired peer now) :=
  decidable_of_iff
    ((∀ row ∈ d.nodes, row.peer.id = peer → row.credentialExpiresAt ≤ now) ∧
      ∀ row ∈ d.wgOnly, row.peer.id = peer ∨ row.overlapPeerId = some peer →
        ∃ expiry ∈ row.expiresAt, expiry ≤ now)
    ⟨fun h => ⟨h.1, h.2⟩, fun h => ⟨h.node, h.wgOnly⟩⟩

theorem Expired.later {later : Int} (h : d.Expired peer now) (hle : now ≤ later) :
    d.Expired peer later where
  node row hrow hid := le_trans (h.node row hrow hid) hle
  wgOnly row hrow hid := by
    obtain ⟨expiry, hexpiry, hpassed⟩ := h.wgOnly row hrow hid
    exact ⟨expiry, hexpiry, le_trans hpassed hle⟩

/-- A change of device rows that keeps ids and credentials keeps what has expired. -/
theorem Expired.updateNodes (h : d.Expired peer now) {f : NodeRow → NodeRow}
    (hid : ∀ row, (f row).peer.id = row.peer.id)
    (hexpiry : ∀ row, (f row).credentialExpiresAt = row.credentialExpiresAt) :
    (d.updateNodes f).Expired peer now where
  node row hrow hpeer := by
    obtain ⟨before, hbefore, rfl⟩ := List.mem_map.mp hrow
    rw [hexpiry]
    exact h.node before hbefore (hid before ▸ hpeer)
  wgOnly := h.wgOnly

theorem Expired.prepare (h : d.Expired peer now) (node : Uuid) (c : Compile) :
    (d.prepare node c).Expired peer now := by
  have hseen : (d.touch node c.now).Expired peer now := by
    apply h.updateNodes
    · intro row
      split <;> rfl
    · intro row
      split <;> rfl
  have hkept : ((d.touch node c.now).expireEphemeralNodes c.now).Expired peer now := by
    apply hseen.updateNodes
    · intro row
      split <;> rfl
    · intro row
      split <;> rfl
  exact ⟨hkept.node, hkept.wgOnly⟩

/-! ## An expired peer is not listed -/

theorem nodePeer_id {source : Subject} {row : NodeRow} {peer : Peer}
    (h : d.nodePeer source c row = some peer) : peer.id = row.peer.id := by
  unfold nodePeer at h
  dsimp only at h
  split at h
  · cases h
    exact c.complete.id_eq _
  · cases h

theorem exportPeer_id {source : Subject} {entry : Peer × List DeviceTag} {peer : Peer}
    (h : d.exportPeer source c entry = some peer) : peer.id = entry.1.id := by
  unfold exportPeer at h
  dsimp only at h
  split at h
  · cases h
  · cases h
    exact c.complete.id_eq _

/-- A WireGuard-only peer is exported under its own id or the id of its overlap. -/
theorem exported_id {row : WgOnlyRow} {peer : Peer} (h : peer ∈ exported row now) :
    row.peer.id = peer.id ∨ row.overlapPeerId = some peer.id := by
  unfold exported at h
  split at h
  · next hoverlap =>
    split at h
    · rcases List.mem_pair.mp h with rfl | rfl
      · exact .inl rfl
      · exact .inr hoverlap
    · exact .inl (List.mem_singleton.mp h ▸ rfl)
  · exact .inl (List.mem_singleton.mp h ▸ rfl)

/-- What is listed has not expired. -/
theorem Expired.not_listed (h : d.Expired peer c.now) (node : Uuid) :
    peer ∉ idSet (d.listPeers node c).peers := by
  intro hlisted
  obtain ⟨row, hrow, rfl⟩ := mem_idSet.mp hlisted
  rcases List.mem_append.mp hrow with hnode | hexport
  · -- A candidate's credential is still valid.
    obtain ⟨candidate, hcandidate, hsome⟩ := List.mem_filterMap.mp hnode
    obtain ⟨hmem, hstanding⟩ := List.mem_filter.mp hcandidate
    have hpassed := h.node candidate hmem (nodePeer_id hsome).symm
    simp only [Bool.and_eq_true, decide_eq_true_eq] at hstanding
    exact absurd hstanding.2 (not_lt.mpr hpassed)
  · -- An exported row has no expiry or one ahead.
    obtain ⟨entry, hentry, hsome⟩ := List.mem_filterMap.mp hexport
    obtain ⟨wg, hwg, hentry⟩ := List.mem_flatMap.mp hentry
    obtain ⟨exportRow, hexportRow, rfl⟩ := List.mem_map.mp hentry
    obtain ⟨hmem, hactive⟩ := List.mem_filter.mp hwg
    have hid := exported_id hexportRow
    rw [show exportRow.id = row.id from (exportPeer_id hsome).symm] at hid
    obtain ⟨expiry, hexpiry, hpassed⟩ := h.wgOnly wg hmem hid
    rw [Option.mem_def.mp hexpiry] at hactive
    simp only [Option.all_some, Bool.and_eq_true, decide_eq_true_eq] at hactive
    exact absurd hactive.2 (not_lt.mpr hpassed)

end Directory

end BlakTail.Control
