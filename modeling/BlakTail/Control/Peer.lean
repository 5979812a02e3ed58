import BlakTail.Foundation.Ordered
import BlakTail.Foundation.Table
import BlakTail.Ingress

/-!
# Peers and What the Agent Installs

The peer record both sides exchange, `peer_diff`, and `installable_wireguard_peers`:
WireGuard routes each allowed address to one peer, so a listed peer whose routes are
already claimed is held back.

The installer runs in two passes.  The first keeps what is installed, refreshed from
the listed rows of the same key; the second adds listed peers whose routes are free.
`foldl_addDesired_filter` says which rows the second pass may skip without a trace, and
`foldl_keepCurrent` what the first pass does when the installed rows are unchanged.
-/

namespace BlakTail.Control

open Foundation

/-- A UUID, as its 128-bit number: ordered maps of the source order them so. -/
abbrev Uuid := Nat

/-- Post-quantum mode of a pair. -/
inductive PqMode where
  | off
  | prefer
  | require
  deriving DecidableEq

/-- Post-quantum policy of a pair. -/
structure PeerPq where
  mode : PqMode := .off
  capable : Bool := false
  block : Bool := false
  deriving DecidableEq

/-- One row of the peer map.  The coordinator's extra `kind` text is not read by the
agent. -/
structure Peer where
  id : Uuid
  name : String := ""
  wgPublicKey : String
  endpoint : Option String := none
  allowedIps : List String
  dnsName : String := ""
  tags : List String := []
  relayEndpoint : Option String := none
  ingress : Option PeerIngress := none
  pq : Option PeerPq := none
  deriving DecidableEq

/-! ## Device changes -/

/-- One change of the WireGuard device. -/
inductive PeerChange where
  | remove (key : String)
  | upsert (peer : Peer)
  deriving DecidableEq

/-- The row a map collected by key holds: the last one with the key. -/
def byKey (peers : List Peer) (key : String) : Option Peer :=
  (peers.filter fun peer => peer.wgPublicKey = key).getLast?

/-- The keys of a map collected by key, in order. -/
def sortedKeys (peers : List Peer) : List String :=
  extendText [] (peers.map Peer.wgPublicKey)

/-- The changes that take the device from `current` to `desired`: removals first, then
new and changed rows, each in key order. -/
def peerDiff (current desired : List Peer) : List PeerChange :=
  let removed := (sortedKeys current).filter fun key => (byKey desired key).isNone
  let upserted := (sortedKeys desired).filterMap fun key =>
    match byKey desired key with
    | some peer => if byKey current key = some peer then none else some peer
    | none => none
  removed.map .remove ++ upserted.map .upsert

/-! ## The installer -/

structure Install where
  claimed : List String := []
  seen : List String := []
  installed : List Peer := []

namespace Install

/-- Some route of the peer is claimed already. -/
def blocks (acc : Install) (peer : Peer) : Bool :=
  peer.allowedIps.any fun route => acc.claimed.contains route

def add (acc : Install) (peer : Peer) : Install where
  claimed := acc.claimed ++ peer.allowedIps
  seen := peer.wgPublicKey :: acc.seen
  installed := acc.installed ++ [peer]

/-- First pass: an installed peer stays if its key is still listed, with the listed row. -/
def keepCurrent (desired : List Peer) (acc : Install) (peer : Peer) : Install :=
  match byKey desired peer.wgPublicKey with
  | none => acc
  | some fresh => if acc.blocks fresh then acc else acc.add fresh

/-- Second pass: a listed peer not seen yet is installed if its routes are free. -/
def addDesired (acc : Install) (peer : Peer) : Install :=
  if acc.seen.contains peer.wgPublicKey then acc
  else if acc.blocks peer then { acc with seen := peer.wgPublicKey :: acc.seen }
  else acc.add peer

end Install

/-- The peers that go on the interface, given those on it and those listed. -/
def installableWireguardPeers (current desired : List Peer) : List Peer :=
  (desired.foldl Install.addDesired (current.foldl (Install.keepCurrent desired) {})).installed

/-! ## Lookups by key -/

variable {peers : List Peer} {peer : Peer}

theorem mem_of_byKey {key : String} (h : byKey peers key = some peer) :
    peer ∈ peers ∧ peer.wgPublicKey = key := by
  have hmem := List.mem_filter.mp (List.mem_of_getLast? h)
  exact ⟨hmem.1, of_decide_eq_true hmem.2⟩

theorem byKey_eq_none {key : String} (hnone : ∀ peer ∈ peers, peer.wgPublicKey ≠ key) :
    byKey peers key = none := by
  cases hfound : byKey peers key with
  | none => rfl
  | some peer =>
    obtain ⟨hmem, hkey⟩ := mem_of_byKey hfound
    exact absurd hkey (hnone peer hmem)

theorem byKey_isSome_of_mem (hpeer : peer ∈ peers) : byKey peers peer.wgPublicKey ≠ none := by
  intro hnone
  unfold byKey at hnone
  rw [List.getLast?_eq_none_iff, List.filter_eq_nil_iff] at hnone
  exact hnone peer hpeer (decide_eq_true rfl)

/-- With distinct keys a row is found by its key. -/
theorem byKey_eq_some (hkeys : (peers.map Peer.wgPublicKey).Nodup) (hpeer : peer ∈ peers) :
    byKey peers peer.wgPublicKey = some peer := by
  obtain ⟨row, hrow⟩ := Option.ne_none_iff_exists'.mp (byKey_isSome_of_mem hpeer)
  obtain ⟨hmem, hkey⟩ := mem_of_byKey hrow
  rw [hrow, List.inj_on_of_nodup_map hkeys hmem hpeer hkey]

/-! ## Routes -/

/-- No route belongs to two rows. -/
def RouteDisjoint (peers : List Peer) : Prop :=
  peers.Pairwise fun a b => ∀ route ∈ a.allowedIps, route ∉ b.allowedIps

namespace Install

/-- What every pass keeps: the claimed routes are those of the installed rows, and no
two rows share one. -/
structure WellFormed (acc : Install) : Prop where
  claimed : ∀ route, route ∈ acc.claimed ↔ ∃ peer ∈ acc.installed, route ∈ peer.allowedIps
  disjoint : RouteDisjoint acc.installed

theorem blocks_iff {acc : Install}
    : acc.blocks peer ↔ ∃ route ∈ peer.allowedIps, route ∈ acc.claimed := by
  simp [blocks]

theorem add_wellFormed {acc : Install} (hacc : acc.WellFormed) (hfree : acc.blocks peer = false) :
    (acc.add peer).WellFormed := by
  refine ⟨fun route => ?_, ?_⟩
  · simp only [add, List.mem_append, List.mem_singleton, hacc.claimed]
    constructor
    · rintro (⟨row, hrow, hroute⟩ | hroute)
      · exact ⟨row, .inl hrow, hroute⟩
      · exact ⟨peer, .inr rfl, hroute⟩
    · rintro ⟨row, hrow | rfl, hroute⟩
      · exact .inl ⟨row, hrow, hroute⟩
      · exact .inr hroute
  · refine List.pairwise_append.mpr ⟨hacc.disjoint, List.pairwise_singleton _ _, ?_⟩
    intro row hrow other hother route hroute hshared
    rw [List.mem_singleton.mp hother] at hshared
    have hclaimed := (hacc.claimed route).mpr ⟨row, hrow, hroute⟩
    exact absurd (blocks_iff.mpr ⟨route, hshared, hclaimed⟩) (by simp [hfree])

/-- What both passes keep: every row that is added is listed and free. -/
theorem installable_induction {P : Install → Prop} (current desired : List Peer) (hempty : P {})
    (hadd : ∀ acc, ∀ peer ∈ desired, acc.blocks peer = false → P acc → P (acc.add peer))
    (hseen : ∀ acc (peer : Peer), P acc → P { acc with seen := peer.wgPublicKey :: acc.seen }) :
    P (desired.foldl addDesired (current.foldl (keepCurrent desired) {})) := by
  have hkeep : P (current.foldl (keepCurrent desired) {}) := by
    refine List.foldlRecOn current _ hempty fun acc hacc row _ => ?_
    unfold keepCurrent
    split
    · exact hacc
    · next fresh hfresh =>
      split
      · exact hacc
      · next hfree =>
        exact hadd acc fresh (mem_of_byKey hfresh).1 (Bool.eq_false_iff.mpr hfree) hacc
  refine List.foldlRecOn desired _ hkeep fun acc hacc row hrow => ?_
  unfold addDesired
  split
  · exact hacc
  · split
    · exact hseen acc row hacc
    · next hfree => exact hadd acc row hrow (Bool.eq_false_iff.mpr hfree) hacc

end Install

theorem installable_wellFormed {current desired : List Peer} :
    (desired.foldl Install.addDesired
      (current.foldl (Install.keepCurrent desired) {})).WellFormed :=
  Install.installable_induction current desired ⟨by simp, List.Pairwise.nil⟩
    (fun _ _ _ hfree hacc => Install.add_wellFormed hacc hfree)
    fun _ _ hacc => ⟨hacc.claimed, hacc.disjoint⟩

/-- No two installed peers share a route. -/
theorem installable_disjoint (current desired : List Peer) :
    RouteDisjoint (installableWireguardPeers current desired) :=
  installable_wellFormed.disjoint

/-- Only listed rows are installed. -/
theorem installable_subset (current desired : List Peer)
    (h : peer ∈ installableWireguardPeers current desired) : peer ∈ desired := by
  refine Install.installable_induction (P := fun acc => ∀ row ∈ acc.installed, row ∈ desired)
    current desired (nofun) ?_ (fun _ _ hacc => hacc) peer h
  intro acc row hrow _ hacc other hother
  rcases List.mem_append.mp hother with hold | hnew
  · exact hacc other hold
  · rw [List.mem_singleton.mp hnew]
    exact hrow

/-! ## The first pass over unchanged rows -/

namespace Install

/-- Where the listed row of every installed key is the installed row or missing, the
first pass keeps the rows that are still listed, in order. -/
theorem foldl_keepCurrent {desired current : List Peer} {listed : Peer → Bool}
    (hlisted : ∀ peer ∈ current,
      byKey desired peer.wgPublicKey = if listed peer then some peer else none)
    (hdisjoint : RouteDisjoint current) :
    current.foldl (keepCurrent desired) {} = (current.filter listed).foldl add {} := by
  -- Generalised over the rows kept so far, none of which shares a route with the rest.
  have hgeneral : ∀ (rows : List Peer) (acc : Install), RouteDisjoint rows →
      (∀ peer ∈ rows, peer ∈ current) → (∀ peer ∈ rows, acc.blocks peer = false) →
      rows.foldl (keepCurrent desired) acc = (rows.filter listed).foldl add acc := by
    intro rows
    induction rows with
    | nil => intros; rfl
    | cons peer rows ih =>
      intro acc hrows hsub hfree
      obtain ⟨hpeer, hrest⟩ := List.pairwise_cons.mp hrows
      have hsub' := fun row hrow => hsub row (List.mem_cons_of_mem peer hrow)
      have hfree' := fun row hrow => hfree row (List.mem_cons_of_mem peer hrow)
      have hlookup := hlisted peer (hsub peer List.mem_cons_self)
      rw [List.foldl_cons]
      cases hkept : listed peer with
      | false =>
        rw [hkept] at hlookup
        rw [List.filter_cons_of_neg (by simp [hkept])]
        simp only [keepCurrent, hlookup, Bool.false_eq_true, if_false]
        exact ih acc hrest hsub' hfree'
      | true =>
        rw [hkept] at hlookup
        rw [List.filter_cons_of_pos hkept]
        simp only [keepCurrent, hlookup, if_true, hfree peer List.mem_cons_self,
          Bool.false_eq_true, if_false]
        refine ih (acc.add peer) hrest hsub' fun row hrow => ?_
        rw [Bool.eq_false_iff]
        intro hblocks
        obtain ⟨route, hroute, hclaimed⟩ := blocks_iff.mp hblocks
        rcases List.mem_append.mp hclaimed with hold | hnew
        · exact absurd (blocks_iff.mpr ⟨route, hroute, hold⟩) (by simp [hfree' row hrow])
        · exact hpeer row hrow route hnew hroute
  exact hgeneral current {} hdisjoint (fun _ h => h) fun _ _ => by simp [blocks]

variable (rows : List Peer) {peer : Peer}

variable (acc : Install)

theorem mem_seen_foldl_add (key : String) :
    key ∈ (rows.foldl add acc).seen ↔ key ∈ acc.seen ∨ ∃ peer ∈ rows, peer.wgPublicKey = key := by
  refine foldl_adds (P := fun acc : Install => key ∈ acc.seen) (fun acc peer => ?_) rows acc
  rw [add, List.mem_cons, or_comm, eq_comm]

theorem mem_claimed_foldl_add (route : String) :
    route ∈ (rows.foldl add acc).claimed ↔
      route ∈ acc.claimed ∨ ∃ peer ∈ rows, route ∈ peer.allowedIps :=
  foldl_adds (P := fun acc : Install => route ∈ acc.claimed) (fun _ _ => List.mem_append) rows acc

/-! ## Rows the second pass skips -/

/-- A row the second pass leaves out: its key is seen or a route of it is claimed. -/
def skips (peer : Peer) : Prop :=
  peer.wgPublicKey ∈ acc.seen ∨ acc.blocks peer

/-- Both accumulators treat the rows ahead alike. -/
structure SameFor (rows : List Peer) (acc acc' : Install) : Prop where
  claimed : acc.claimed = acc'.claimed
  installed : acc.installed = acc'.installed
  seen : ∀ peer ∈ rows, (peer.wgPublicKey ∈ acc.seen ↔ peer.wgPublicKey ∈ acc'.seen)

theorem SameFor.refl : SameFor rows acc acc :=
  ⟨rfl, rfl, fun _ _ => Iff.rfl⟩

variable {acc acc' : Install}

theorem SameFor.tail {rows : List Peer} (h : SameFor (peer :: rows) acc acc') :
    SameFor rows acc acc' :=
  ⟨h.claimed, h.installed, fun row hrow => h.seen row (List.mem_cons_of_mem peer hrow)⟩

theorem addDesired_sameFor {rows : List Peer} (h : SameFor (peer :: rows) acc acc') :
    SameFor rows (addDesired acc peer) (addDesired acc' peer) := by
  have hseen : acc.seen.contains peer.wgPublicKey = acc'.seen.contains peer.wgPublicKey := by
    rw [Bool.eq_iff_iff, List.contains_iff_mem, List.contains_iff_mem]
    exact h.seen peer List.mem_cons_self
  have hblocks : acc.blocks peer = acc'.blocks peer := by
    simp only [blocks, h.claimed]
  unfold addDesired
  rw [hseen, hblocks]
  split
  · exact h.tail
  · split
    · refine ⟨h.claimed, h.installed, fun row hrow => ?_⟩
      simp only [List.mem_cons, h.tail.seen row hrow]
    · refine ⟨by simp only [add, h.claimed], by simp only [add, h.installed], fun row hrow => ?_⟩
      simp only [add, List.mem_cons, h.tail.seen row hrow]

theorem addDesired_of_skips (hskips : acc.skips peer) {rows : List Peer}
    (hkeys : ∀ row ∈ rows, row.wgPublicKey ≠ peer.wgPublicKey)
    (h : SameFor (peer :: rows) acc acc') : SameFor rows (addDesired acc peer) acc' := by
  unfold addDesired
  split
  · exact h.tail
  · next hunseen =>
    have hblocks : acc.blocks peer := by
      rcases hskips with hseen | hblocks
      · exact absurd (List.contains_iff_mem.mpr hseen) hunseen
      · exact hblocks
    rw [if_pos hblocks]
    refine ⟨h.claimed, h.installed, fun row hrow => ?_⟩
    rw [List.mem_cons, h.tail.seen row hrow]
    exact ⟨fun hmem => hmem.resolve_left (hkeys row hrow), .inr⟩

theorem skips_addDesired {row : Peer} (peer : Peer) (hskips : acc.skips row) :
    (addDesired acc peer).skips row := by
  unfold addDesired
  split
  · exact hskips
  · split
    · exact hskips.imp (List.mem_cons_of_mem _) id
    · refine hskips.imp (List.mem_cons_of_mem _) fun hblocks => ?_
      obtain ⟨route, hroute, hclaimed⟩ := blocks_iff.mp hblocks
      exact blocks_iff.mpr ⟨route, hroute, List.mem_append_left _ hclaimed⟩

/-- Rows that are skipped at the start are skipped at their turn, so leaving them out
of the list changes nothing. -/
theorem foldl_addDesired_filter (keep : Peer → Bool) {rows : List Peer}
    (hkeys : (rows.map Peer.wgPublicKey).Nodup) (hsame : SameFor rows acc acc')
    (hskips : ∀ peer ∈ rows, keep peer = false → acc.skips peer) :
    (rows.foldl addDesired acc).installed =
      ((rows.filter keep).foldl addDesired acc').installed := by
  -- Two accumulators run side by side; they differ at most in the keys of skipped rows,
  -- which no row ahead has.
  induction rows generalizing acc acc' with
  | nil => exact hsame.installed
  | cons peer rows ih =>
    rw [List.map_cons, List.nodup_cons] at hkeys
    have hne : ∀ row ∈ rows, row.wgPublicKey ≠ peer.wgPublicKey := fun row hrow heq =>
      hkeys.1 (heq ▸ List.mem_map_of_mem hrow)
    have hskips' : ∀ row ∈ rows, keep row = false → (addDesired acc peer).skips row :=
      fun row hrow hkeep => skips_addDesired peer
        (hskips row (List.mem_cons_of_mem peer hrow) hkeep)
    cases hkeep : keep peer with
    | true =>
      rw [List.filter_cons_of_pos hkeep]
      exact ih hkeys.2 (addDesired_sameFor hsame) hskips'
    | false =>
      rw [List.filter_cons_of_neg (by simp [hkeep])]
      have hdead := hskips peer List.mem_cons_self hkeep
      exact ih hkeys.2 (addDesired_of_skips hdead hne hsame) hskips'

end Install

end BlakTail.Control
