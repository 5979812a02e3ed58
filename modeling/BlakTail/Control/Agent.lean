import BlakTail.Foundation.Text
import BlakTail.Control.Update

/-!
# The Agent's Side of a Sync

`read_peers_response` and `apply_peer_map`: the agent adopts a response's revision and
addresses while reading it, and its peers only after the device and the filters took
them.  Each device operation may fail; `Outcomes` says which ones do.

DNS, relay, share and service fields of the response, which are copied and not
looked at again here, are left out.
-/

namespace BlakTail.Control

open Foundation

/-- The persisted state, as far as peers and addresses depend on it. -/
structure NodeState where
  controlRevision : Nat := 0
  assignedIp : String := ""
  assignedIps : List String := []
  retiringIps : List String := []
  peers : List Peer := []

/-- What the kernel enforces: device rows by key, and the rows the inbound filter was
built from. -/
structure Network where
  wireguard : Table String Peer := ∅
  ingress : List Peer := []

/-- A running agent: its state, the copy on disk and the network. -/
structure Host where
  state : NodeState := {}
  disk : NodeState := {}
  network : Network := {}

/-- Which operations succeed while one response is applied. -/
structure Outcomes where
  setAddresses : Bool := true
  apply : Bool := true
  applyIngress : Bool := true
  applyForwardFilter : Bool := true
  writeState : Bool := true
  deriving DecidableEq

namespace NodeState

variable (state : NodeState)

/-- The addresses of the interface: the assigned ones, with the primary one first if
it is missing, without blanks. -/
def interfaceAddresses : List String :=
  let addresses :=
    if state.assignedIps.contains state.assignedIp then state.assignedIps
    else state.assignedIp :: state.assignedIps
  addresses.filter fun address => Text.trim address ≠ ""

/-- Adopt the coordinator's address list; the primary one is the first IPv4 address not
being withdrawn. -/
def adoptAssignedIps (assignedIps retiringIps : List String) : NodeState :=
  let state :=
    if assignedIps.isEmpty then state
    else
      let primary := assignedIps.find? fun address =>
        !address.toList.contains ':' && !retiringIps.contains address
      { state with assignedIp := primary.getD state.assignedIp, assignedIps := assignedIps }
  { state with retiringIps := retiringIps }

@[simp] theorem adoptAssignedIps_peers (assigned retiring : List String) :
    (state.adoptAssignedIps assigned retiring).peers = state.peers := by
  unfold adoptAssignedIps
  split <;> rfl

@[simp] theorem adoptAssignedIps_controlRevision (assigned retiring : List String) :
    (state.adoptAssignedIps assigned retiring).controlRevision = state.controlRevision := by
  unfold adoptAssignedIps
  split <;> rfl

/-- Read a response: merge its peers into the list the agent holds, and adopt its
revision and addresses. -/
def readPeersResponse (body : PeersResponse) : NodeState × List Peer :=
  let peers := applyControlPeers state.peers body
  let state := { state with controlRevision := body.revision.getD state.controlRevision }
  (state.adoptAssignedIps body.assignedIps body.retiringIps, peers)

end NodeState

def PeerChange.applyTo (wireguard : Table String Peer) : PeerChange → Table String Peer
  | .remove key => wireguard.erase key
  | .upsert peer => wireguard.insert peer.wgPublicKey peer

namespace Host

variable (h : Host) {ops : Outcomes}

/-- Install `installed`: device, inbound filter, forward filter, then the agent's own
list and its copy on disk.  The first failure ends it. -/
def install (ops : Outcomes) (installed : List Peer) : Host :=
  let changes := peerDiff h.state.peers installed
  if ops.apply = false then h
  else
    let h := { h with
      network.wireguard := changes.foldl PeerChange.applyTo h.network.wireguard }
    if ops.applyIngress = false then h
    else
      let h := { h with network.ingress := installed }
      if ops.applyForwardFilter = false then h
      else
        let h := { h with state.peers := installed }
        if ops.writeState = false then h else { h with disk := h.state }

/-- `apply_peer_map`: addresses first, and only if they changed. -/
def applyPeerMap (ops : Outcomes) (desired : List Peer)
    (previousAssignedIps previousAddresses : List String) : Host :=
  if h.state.interfaceAddresses ≠ previousAddresses ∧ ops.setAddresses = false then
    { h with state.assignedIps := previousAssignedIps }
  else h.install ops (installableWireguardPeers h.state.peers desired)

def process (ops : Outcomes) (body : PeersResponse) : Host :=
  let previousAssignedIps := h.state.assignedIps
  let previousAddresses := h.state.interfaceAddresses
  let (state, desired) := h.state.readPeersResponse body
  { h with state := state }.applyPeerMap ops desired previousAssignedIps previousAddresses

/-! ## What processing does to the agent's list -/

/-- The list a response asks for, given the list held. -/
def target (body : PeersResponse) : List Peer :=
  installableWireguardPeers h.state.peers (applyControlPeers h.state.peers body)

theorem install_controlRevision (ops : Outcomes) (installed : List Peer) :
    (h.install ops installed).state.controlRevision = h.state.controlRevision := by
  unfold install
  split
  · rfl
  · split
    · rfl
    · split
      · rfl
      · split <;> rfl

/-- The revision is adopted whether or not the response could be applied. -/
theorem process_controlRevision (ops : Outcomes) (body : PeersResponse) :
    (h.process ops body).state.controlRevision = body.revision.getD h.state.controlRevision := by
  unfold process applyPeerMap NodeState.readPeersResponse
  dsimp only
  split
  · simp
  · rw [install_controlRevision]
    simp

/-- Nothing failed before the agent's own list was replaced. -/
def Applied (ops : Outcomes) : Prop :=
  ops.setAddresses ∧ ops.apply ∧ ops.applyIngress ∧
    ops.applyForwardFilter

variable {h : Host}

theorem install_peers {installed : List Peer} (hops : Applied ops) :
    (h.install ops installed).state.peers = installed := by
  obtain ⟨-, happly, hingress, hforward⟩ := hops
  simp only [install, happly, hingress, hforward, Bool.true_eq_false, if_false]
  split <;> rfl

theorem process_peers {body : PeersResponse}
    (hops : Applied ops) : (h.process ops body).state.peers = h.target body := by
  unfold process applyPeerMap
  dsimp only
  rw [if_neg (by simp [hops.1]), install_peers hops]
  simp [NodeState.readPeersResponse, target]

/-- All that applying a response can do to the agent's list and its copy on disk: keep
both, or adopt the list asked for and perhaps write it. -/
theorem process_cases (h : Host) (ops : Outcomes) (body : PeersResponse) :
    ((h.process ops body).state.peers = h.state.peers ∧ (h.process ops body).disk = h.disk) ∨
      ((h.process ops body).state.peers = h.target body ∧
        ((h.process ops body).disk = h.disk ∨
          (h.process ops body).disk = (h.process ops body).state)) := by
  unfold process applyPeerMap install
  dsimp only
  split
  · exact .inl ⟨by simp [NodeState.readPeersResponse], rfl⟩
  · split
    · exact .inl ⟨by simp [NodeState.readPeersResponse], rfl⟩
    · split
      · exact .inl ⟨by simp [NodeState.readPeersResponse], rfl⟩
      · split
        · exact .inl ⟨by simp [NodeState.readPeersResponse], rfl⟩
        · split
          · exact .inr ⟨by simp [NodeState.readPeersResponse, target], .inl rfl⟩
          · exact .inr ⟨by simp [NodeState.readPeersResponse, target], .inr rfl⟩

/-- Where nothing fails, the device takes the diff and the filter the list asked for. -/
theorem process_network {body : PeersResponse} (hops : Applied ops) :
    (h.process ops body).network =
      { wireguard := (peerDiff h.state.peers (h.target body)).foldl PeerChange.applyTo
          h.network.wireguard
        ingress := h.target body } := by
  obtain ⟨haddresses, happly, hingress, hforward⟩ := hops
  simp only [process, applyPeerMap, install, haddresses, happly, hingress, hforward,
    Bool.true_eq_false, and_false, if_false]
  split <;> simp [NodeState.readPeersResponse, target]

end Host

end BlakTail.Control
