import Mathlib
import BlakTail.Control.Agent

/-!
# Revisions and What Is Held

A running agent whose device operations may fail.  The state keeps a log of every
response read, with the list that response asked for at that moment, so that "the
list computed from the update with revision `r`" is a lookup in the log.

The agent adopts the revision while reading and the list only after four fallible
steps, of which the first ones have changed the network when a later one fails.  As long
as none of them fails, revision, list, device and inbound filter go together, through
restarts and failed writes of the state file.
-/

namespace BlakTail.Control

open Foundation

/-! ## The device follows the diff -/

/-- The device holds exactly the rows of `peers`. -/
def Represents (wireguard : Table String Peer) (peers : List Peer) : Prop :=
  ∀ key, wireguard.lookup key = byKey peers key

theorem byKey_append_singleton (peers : List Peer) (peer : Peer) (key : String) :
    byKey (peers ++ [peer]) key =
      if key = peer.wgPublicKey then some peer else byKey peers key := by
  unfold byKey
  by_cases hkey : key = peer.wgPublicKey
  · simp [hkey]
  · have hne : ¬ peer.wgPublicKey = key := fun heq => hkey heq.symm
    simp [hkey, hne]

theorem foldl_upsert_lookup (peers : List Peer) (wireguard : Table String Peer) (key : String) :
    ((peers.map PeerChange.upsert).foldl PeerChange.applyTo wireguard).lookup key =
      (byKey peers key).or (wireguard.lookup key) := by
  -- From the last change backwards: it decides its own key and leaves the others alone.
  induction peers using List.reverseRecOn with
  | nil => rfl
  | append_singleton peers peer ih =>
    rw [List.map_append, List.foldl_append, byKey_append_singleton]
    simp only [List.map_cons, List.map_nil, List.foldl_cons, List.foldl_nil, PeerChange.applyTo]
    rw [Table.lookup_insert_if]
    split
    · rfl
    · exact ih

theorem foldl_remove_lookup (keys : List String) (wireguard : Table String Peer) (key : String) :
    ((keys.map PeerChange.remove).foldl PeerChange.applyTo wireguard).lookup key =
      if key ∈ keys then none else wireguard.lookup key := by
  rw [List.foldl_map]
  exact Table.lookup_foldl_erase wireguard keys key

theorem mem_sortedKeys {peers : List Peer} {key : String} :
    key ∈ sortedKeys peers ↔ ∃ peer ∈ peers, peer.wgPublicKey = key := by
  unfold sortedKeys
  simp

/-- The rows `peer_diff` writes: those whose row on the device is not the desired one. -/
def upserts (current desired : List Peer) : List Peer :=
  (sortedKeys desired).filterMap fun key =>
    match byKey desired key with
    | some peer => if byKey current key = some peer then none else some peer
    | none => none

theorem mem_upserts {current desired : List Peer} {peer : Peer} :
    peer ∈ upserts current desired ↔
      byKey desired peer.wgPublicKey = some peer ∧ byKey current peer.wgPublicKey ≠ some peer := by
  unfold upserts
  rw [List.mem_filterMap]
  constructor
  · rintro ⟨key, -, hrow⟩
    split at hrow
    · next row hdesired =>
      split at hrow
      · cases hrow
      · next hcurrent =>
        cases hrow
        rw [(mem_of_byKey hdesired).2]
        exact ⟨hdesired, hcurrent⟩
    · cases hrow
  · rintro ⟨hdesired, hcurrent⟩
    refine ⟨peer.wgPublicKey, mem_sortedKeys.mpr ⟨peer, (mem_of_byKey hdesired).1, rfl⟩, ?_⟩
    simp only [hdesired, hcurrent, if_false]

/-- Applying the diff takes the device from one list to the other. -/
theorem peerDiff_represents {wireguard : Table String Peer} {current : List Peer}
    (h : Represents wireguard current) (desired : List Peer) :
    Represents ((peerDiff current desired).foldl PeerChange.applyTo wireguard) desired := by
  intro key
  have hdiff : peerDiff current desired =
      ((sortedKeys current).filter fun key => (byKey desired key).isNone).map .remove ++
        (upserts current desired).map .upsert := rfl
  rw [hdiff, List.foldl_append, foldl_upsert_lookup, foldl_remove_lookup, h key]
  cases hupsert : byKey (upserts current desired) key with
  | some peer =>
    obtain ⟨hmem, rfl⟩ := mem_of_byKey hupsert
    exact (mem_upserts.mp hmem).1.symm
  | none =>
    -- Not written: gone from the desired list, or on the device already.
    have hunwritten : ∀ peer ∈ upserts current desired, peer.wgPublicKey ≠ key := by
      rintro peer hpeer rfl
      exact byKey_isSome_of_mem hpeer hupsert
    simp only [Option.none_or, List.mem_filter, Option.isNone_iff_eq_none]
    cases hdesired : byKey desired key with
    | none =>
      simp only [and_true]
      split
      · rfl
      · next hkey =>
        refine byKey_eq_none fun peer hpeer heq => ?_
        exact hkey (mem_sortedKeys.mpr ⟨peer, hpeer, heq⟩)
    | some peer =>
      obtain ⟨-, rfl⟩ := mem_of_byKey hdesired
      simp only [reduceCtorEq, and_false, if_false]
      by_contra hcurrent
      exact hunwritten peer (mem_upserts.mpr ⟨hdesired, hcurrent⟩) rfl

/-! ## Runs -/

/-- A response the agent read, with the list it asked for. -/
inductive Reading where
  | update (revision : Nat) (peers : List Peer)
  | fetch (peers : List Peer)
  deriving DecidableEq

/-- A running agent and what it has read so far. -/
structure Session where
  host : Host := {}
  log : List Reading := []

/-- What may happen next.  A poll that is answered with 204, lost or rejected changes
nothing. -/
inductive SyncEvent where
  /-- An update, snapshot or delta, with its revision. -/
  | update (revision : Nat) (body : PeersResponse) (ops : Outcomes)
  /-- The recovery fetch, which carries no revision. -/
  | fetch (snapshot : Snapshot) (ops : Outcomes)
  /-- Another part of the loop writes the state file. -/
  | persist (succeeds : Bool)
  /-- The agent starts again from disk and restores its peers. -/
  | restart

/-- The device and the inbound filter rebuilt from a list. -/
def Network.restore (peers : List Peer) : Network where
  wireguard := (peers.map PeerChange.upsert).foldl PeerChange.applyTo ∅
  ingress := peers

namespace Session

def step (s : Session) : SyncEvent → Session
  | .update revision body ops =>
    let body := { body with revision := some revision }
    { host := s.host.process ops body, log := s.log ++ [.update revision (s.host.target body)] }
  | .fetch snapshot ops =>
    let body : PeersResponse := { snapshot with }
    { host := s.host.process ops body, log := s.log ++ [.fetch (s.host.target body)] }
  | .persist succeeds =>
    if succeeds then { s with host.disk := s.host.state } else s
  | .restart =>
    { s with
      host.state := s.host.disk
      host.network := Network.restore s.host.disk.peers }

/-- No step of a response, full fetches included, fails before the list is adopted. -/
def Meets (_ : Session) : SyncEvent → Prop
  | .update _ _ ops => Host.Applied ops
  | .fetch _ ops => Host.Applied ops
  | _ => True

/-- `peers` is what the update with `revision`, or a full fetch after it, asked for. -/
def Sourced (log : List Reading) (revision : Nat) (peers : List Peer) : Prop :=
  ∃ earlier later list, log = earlier ++ .update revision list :: later ∧
    (peers = list ∨ .fetch peers ∈ later)

/-- The list in a state belongs to the revision in it. -/
def Holds (log : List Reading) (state : NodeState) : Prop :=
  0 < state.controlRevision → Sourced log state.controlRevision state.peers

/-- Device and filter are those of the agent's list. -/
structure Enforces (host : Host) : Prop where
  wireguard : Represents host.network.wireguard host.state.peers
  ingress : host.network.ingress = host.state.peers

section Sourced

variable {log : List Reading} {revision : Nat} {peers : List Peer}

theorem Sourced.append (h : Sourced log revision peers) (reading : Reading) :
    Sourced (log ++ [reading]) revision peers := by
  obtain ⟨earlier, later, list, rfl, hpeers⟩ := h
  refine ⟨earlier, later ++ [reading], list, by simp, hpeers.imp id ?_⟩
  exact List.mem_append_left _

theorem Holds.append {state : NodeState} (h : Holds log state) (reading : Reading) :
    Holds (log ++ [reading]) state :=
  fun hknown => (h hknown).append reading

/-- A fetch after the update is a source of its list. -/
theorem Sourced.fetch (h : Sourced log revision peers) (fetched : List Peer) :
    Sourced (log ++ [.fetch fetched]) revision fetched := by
  obtain ⟨earlier, later, list, rfl, -⟩ := h
  exact ⟨earlier, later ++ [.fetch fetched], list, by simp, .inr (by simp)⟩

end Sourced

/-- What every event keeps: the running state and its copy on disk both hold the list
of their revision. -/
structure Consistent (s : Session) : Prop where
  state : Holds s.log s.host.state
  disk : Holds s.log s.host.disk

variable {s : Session} {ops : Outcomes}

/-- The copy on disk is the one before or the state as it is now. -/
theorem consistent_of_process (hs : s.Consistent) {body : PeersResponse} {reading : Reading}
    (hstate : Holds (s.log ++ [reading]) (s.host.process ops body).state) :
    Consistent { host := s.host.process ops body, log := s.log ++ [reading] } := by
  refine ⟨hstate, ?_⟩
  rcases Host.process_cases s.host ops body with ⟨-, hdisk⟩ | ⟨-, hdisk | hdisk⟩
  · rw [hdisk]
    exact hs.disk.append _
  · rw [hdisk]
    exact hs.disk.append _
  · rw [hdisk]
    exact hstate

theorem update_consistent (hs : s.Consistent) (revision : Nat) (body : PeersResponse)
    (hops : Host.Applied ops) : (s.step (.update revision body ops)).Consistent := by
  let asked : PeersResponse := { body with revision := some revision }
  have hpeers : (s.host.process ops asked).state.peers = s.host.target asked :=
    Host.process_peers hops
  have hrevision : (s.host.process ops asked).state.controlRevision = revision :=
    Host.process_controlRevision _ _ _
  -- The log entry just made is the source of the list just adopted.
  have hstate : Holds (s.log ++ [.update revision (s.host.target asked)])
      (s.host.process ops asked).state := by
    intro _
    rw [hrevision, hpeers]
    exact ⟨s.log, [], s.host.target asked, rfl, .inl rfl⟩
  exact consistent_of_process hs hstate

theorem fetch_consistent (hs : s.Consistent) (snapshot : Snapshot) (hops : Host.Applied ops) :
    (s.step (.fetch snapshot ops)).Consistent := by
  let asked : PeersResponse := { snapshot with }
  have hrevision : (s.host.process ops asked).state.controlRevision =
      s.host.state.controlRevision := Host.process_controlRevision _ _ _
  have hpeers : (s.host.process ops asked).state.peers = s.host.target asked :=
    Host.process_peers hops
  -- The revision stays, and the fetch is the later one its list may come from.
  have hstate : Holds (s.log ++ [.fetch (s.host.target asked)])
      (s.host.process ops asked).state := by
    intro hknown
    rw [hrevision] at hknown ⊢
    rw [hpeers]
    exact (hs.state hknown).fetch _
  exact consistent_of_process hs hstate

theorem step_consistent (s : Session) (event : SyncEvent) (hmeets : s.Meets event)
    (hs : s.Consistent) : (s.step event).Consistent := by
  cases event with
  | update revision body ops => exact update_consistent hs revision body hmeets
  | fetch snapshot ops => exact fetch_consistent hs snapshot hmeets
  | persist succeeds =>
    cases succeeds with
    | false => exact hs
    | true => exact ⟨hs.state, hs.state⟩
  | restart => exact ⟨hs.disk, hs.disk⟩

theorem process_enforces {host : Host} (hhost : Enforces host) (hops : Host.Applied ops)
    (body : PeersResponse) : Enforces (host.process ops body) := by
  have hpeers : (host.process ops body).state.peers = host.target body := Host.process_peers hops
  refine ⟨?_, ?_⟩
  · rw [Host.process_network hops, hpeers]
    exact peerDiff_represents hhost.wireguard _
  · rw [Host.process_network hops, hpeers]

theorem step_enforces (s : Session) (event : SyncEvent) (hmeets : s.Meets event)
    (hs : Enforces s.host) : Enforces (s.step event).host := by
  cases event with
  | update revision body ops | fetch snapshot ops => exact process_enforces hs hmeets _
  | persist succeeds =>
    cases succeeds with
    | false => exact hs
    | true => exact ⟨hs.wireguard, hs.ingress⟩
  | restart =>
    refine ⟨fun key => ?_, rfl⟩
    show ((s.host.disk.peers.map PeerChange.upsert).foldl PeerChange.applyTo ∅).lookup key =
      byKey s.host.disk.peers key
    rw [foldl_upsert_lookup]
    simp

/-- An agent that has read nothing yet. -/
def start (state : NodeState) : Session :=
  let fresh := { state with controlRevision := 0, peers := [] }
  { host := { state := fresh, disk := fresh } }

end Session

/-! ## Two concrete runs -/

/-- A peer with one overlay address that may send everything. -/
def openPeer (uuid : Uuid) (key address : String) : Peer :=
  { id := uuid, wgPublicKey := key, allowedIps := [address], ingress := some { all := true } }

/-- The first update is applied but its state file is not written. -/
def firstUpdateUnwritten : SyncEvent :=
  .update 1 { peers := [openPeer 1 "A" "100.64.0.2/32"], kind := some .snapshot }
    { writeState := false }

/-- The second update, which drops the first peer, fails at the device. -/
def secondUpdateFails : SyncEvent :=
  .update 2 { kind := some .delta, removed := [1] } { apply := false }

end BlakTail.Control
