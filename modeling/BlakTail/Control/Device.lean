import BlakTail.Control.Sync

/-!
# Allowed Addresses on the Device

The kernel routes each allowed address to one peer: setting a peer's list takes its entries from
every other peer.  The agent never asks for a list with a shared entry, so the entries it moves end
where they are listed, whatever the order of the changes.
-/

namespace BlakTail.Control

open Foundation

/-! ## What is held back -/

namespace Install

/-- How far the passes have come: the rows with a key seen so far are installed or blocked. -/
structure Settled (desired : List Peer) (acc : Install) : Prop where
  keys : (acc.installed.map Peer.wgPublicKey).Nodup
  seen : ∀ row ∈ acc.installed, row.wgPublicKey ∈ acc.seen
  decided : ∀ peer ∈ desired, peer.wgPublicKey ∈ acc.seen →
    peer ∈ acc.installed ∨ acc.blocks peer

variable {desired : List Peer} {acc : Install} {peer : Peer}

theorem blocks_add (row : Peer) (h : acc.blocks peer) : (acc.add row).blocks peer := by
  obtain ⟨route, hroute, hclaimed⟩ := blocks_iff.mp h
  exact blocks_iff.mpr ⟨route, hroute, List.mem_append_left _ hclaimed⟩

variable (hkeys : (desired.map Peer.wgPublicKey).Nodup) (hpeer : peer ∈ desired)

include hkeys hpeer

theorem Settled.add (h : Settled desired acc) (hnew : peer.wgPublicKey ∉ acc.seen) :
    Settled desired (acc.add peer) := by
  refine ⟨?_, fun row hrow => ?_, fun row hrow hseen => ?_⟩
  · show ((acc.installed ++ [peer]).map Peer.wgPublicKey).Nodup
    rw [List.map_append, List.nodup_append]
    refine ⟨h.keys, List.nodup_singleton _, ?_⟩
    rintro key hkey _ hlast rfl
    obtain ⟨row, hrow, rfl⟩ := List.mem_map.mp hkey
    exact hnew (List.mem_singleton.mp hlast ▸ h.seen row hrow)
  · rcases List.mem_append.mp hrow with hold | hlast
    · exact List.mem_cons_of_mem _ (h.seen row hold)
    · rw [List.mem_singleton.mp hlast]
      exact List.mem_cons_self
  · rcases List.mem_cons.mp hseen with hkey | hseen
    · rw [List.inj_on_of_nodup_map hkeys hrow hpeer hkey]
      exact .inl (List.mem_append_right _ (List.mem_singleton_self _))
    · exact (h.decided row hrow hseen).imp (List.mem_append_left _) (blocks_add peer)

theorem Settled.addDesired (h : Settled desired acc) : Settled desired (acc.addDesired peer) := by
  unfold Install.addDesired
  split
  · exact h
  · next hunseen =>
    split
    · next hblocked =>
      refine ⟨h.keys, fun row hrow => List.mem_cons_of_mem _ (h.seen row hrow), ?_⟩
      intro row hrow hseen
      rcases List.mem_cons.mp hseen with hkey | hseen
      · rw [List.inj_on_of_nodup_map hkeys hrow hpeer hkey]
        exact .inr hblocked
      · exact h.decided row hrow hseen
    · exact h.add hkeys hpeer fun hseen => hunseen (List.contains_iff_mem.mpr hseen)

omit hpeer

/-- The first pass sees each key once. -/
theorem Settled.keepCurrent {rows : List Peer} (hrows : (rows.map Peer.wgPublicKey).Nodup)
    (hfresh : ∀ row ∈ rows, row.wgPublicKey ∉ acc.seen) (h : Settled desired acc) :
    Settled desired (rows.foldl (keepCurrent desired) acc) := by
  induction rows generalizing acc with
  | nil => exact h
  | cons row rows ih =>
    rw [List.map_cons, List.nodup_cons] at hrows
    obtain ⟨hnew, hrest⟩ := List.forall_mem_cons.mp hfresh
    rw [List.foldl_cons, Install.keepCurrent]
    split
    · exact ih hrows.2 hrest h
    · next fresh hfound =>
      obtain ⟨hmem, hkey⟩ := mem_of_byKey hfound
      split
      · exact ih hrows.2 hrest h
      · refine ih hrows.2 (fun other hother hseen => ?_) (h.add hkeys hmem (hkey ▸ hnew))
        rcases List.mem_cons.mp hseen with hsame | hseen
        · exact hrows.1 (hkey ▸ hsame ▸ List.mem_map_of_mem hother)
        · exact hrest other hother hseen

end Install

variable {current desired rows : List Peer}

section

variable (hcurrent : (current.map Peer.wgPublicKey).Nodup)
  (hdesired : (desired.map Peer.wgPublicKey).Nodup)

include hcurrent hdesired

/-- Keys stay distinct, and a listed peer that is not installed shares a route with one that is. -/
theorem installable_settled :
    ((installableWireguardPeers current desired).map Peer.wgPublicKey).Nodup ∧
      ∀ peer ∈ desired, peer ∉ installableWireguardPeers current desired →
        ∃ row ∈ installableWireguardPeers current desired,
          ∃ route ∈ peer.allowedIps, route ∈ row.allowedIps := by
  have hfirst : Install.Settled desired (current.foldl (Install.keepCurrent desired) {}) :=
    .keepCurrent hdesired hcurrent (fun _ _ => List.not_mem_nil)
      ⟨List.nodup_nil, fun _ h => (nomatch h), fun _ _ h => nomatch h⟩
  have hsettled := List.foldlRecOn (motive := Install.Settled desired) desired _ hfirst
    fun _ h peer hpeer => h.addDesired hdesired hpeer
  refine ⟨hsettled.keys, fun peer hpeer hmissing => ?_⟩
  -- the second pass has seen every listed key
  have hseen : peer.wgPublicKey ∈
      (desired.foldl Install.addDesired (current.foldl (Install.keepCurrent desired) {})).seen := by
    refine (foldl_adds (P := fun acc : Install => peer.wgPublicKey ∈ acc.seen)
      (Q := fun row => row.wgPublicKey = peer.wgPublicKey) (fun acc row => ?_) desired _).mpr
        (.inr ⟨peer, hpeer, rfl⟩)
    unfold Install.addDesired
    split
    · next hseen =>
      refine (or_iff_left_of_imp fun hkey => ?_).symm
      exact hkey ▸ List.contains_iff_mem.mp hseen
    · split
      · rw [List.mem_cons, or_comm, eq_comm]
      · rw [Install.add, List.mem_cons, or_comm, eq_comm]
  obtain ⟨route, hroute, hclaimed⟩ :=
    Install.blocks_iff.mp ((hsettled.decided peer hpeer hseen).resolve_left hmissing)
  obtain ⟨row, hrow, hshared⟩ := (installable_wellFormed.claimed route).mp hclaimed
  exact ⟨row, hrow, route, hroute, hshared⟩

/-- What is installed stays installed. -/
theorem installable_stable :
    installableWireguardPeers (installableWireguardPeers current desired) desired =
      installableWireguardPeers current desired := by
  obtain ⟨-, hmissing⟩ := installable_settled hcurrent hdesired
  have hdisjoint := installable_disjoint current desired
  have hlisted : ∀ row ∈ installableWireguardPeers current desired, row ∈ desired := fun _ =>
    installable_subset current desired
  generalize installableWireguardPeers current desired = rows at *
  have hinstalled : ∀ acc : Install,
      (rows.foldl Install.add acc).installed = acc.installed ++ rows := by
    clear hmissing hdisjoint hlisted
    induction rows with
    | nil => simp
    | cons row rows ih => simp [ih, Install.add]
  unfold installableWireguardPeers
  have hkept : ∀ row ∈ rows, byKey desired row.wgPublicKey = if (fun _ => true) row then some row
      else none := fun row hrow => byKey_eq_some hdesired (hlisted row hrow)
  rw [Install.foldl_keepCurrent hkept hdisjoint, List.filter_true,
    Install.foldl_addDesired_filter (fun _ => false) hdesired (.refl _ _), List.filter_false,
    List.foldl_nil, hinstalled]
  · rfl
  · intro peer hpeer _
    by_cases hmem : peer ∈ rows
    · exact .inl ((Install.mem_seen_foldl_add _ _ _).mpr (.inr ⟨peer, hmem, rfl⟩))
    · obtain ⟨row, hrow, route, hroute, hshared⟩ := hmissing peer hpeer hmem
      refine .inr (Install.blocks_iff.mpr ⟨route, hroute, ?_⟩)
      exact (Install.mem_claimed_foldl_add _ _ _).mpr (.inr ⟨row, hrow, hshared⟩)

end

/-! ## The device -/

/-- The allowed addresses of each peer on the interface. -/
abbrev Device := Table String (List String)

/-- `wg set` with one change: a list that is set takes its entries from the other peers. -/
def PeerChange.setRoutes (device : Device) : PeerChange → Device
  | .remove key => device.erase key
  | .upsert peer =>
    (device.mapValues fun routes => routes.filter fun route =>
      !peer.allowedIps.contains route).insert
      peer.wgPublicKey peer.allowedIps

/-- The device has the peers of a list with the routes it gives them. -/
def Device.Holds (device : Device) (peers : List Peer) : Prop :=
  ∀ key, device.lookup key = (byKey peers key).map Peer.allowedIps

theorem RouteDisjoint.apart (h : RouteDisjoint rows) {a b : Peer} (ha : a ∈ rows) (hb : b ∈ rows)
    (hne : a ≠ b) : ∀ route ∈ a.allowedIps, route ∉ b.allowedIps := by
  have hsymm : Std.Symm fun a b : Peer => ∀ route ∈ a.allowedIps, route ∉ b.allowedIps :=
    ⟨fun _ _ h route hb ha => h route ha hb⟩
  exact h.forall ha hb hne

/-- Rows of one list, set in any order, end with their routes, and so do the rows of that list that
are on the device already. -/
theorem foldl_setRoutes {device : Device} (hdisjoint : RouteDisjoint rows) {pending : List Peer}
    (hpending : ∀ peer ∈ pending, byKey rows peer.wgPublicKey = some peer)
    (hdevice : ∀ key, (∀ peer ∈ pending, peer.wgPublicKey ≠ key) →
      device.lookup key = (byKey rows key).map Peer.allowedIps) :
    ((pending.map PeerChange.upsert).foldl PeerChange.setRoutes device).Holds rows := by
  induction pending generalizing device with
  | nil => exact fun key => hdevice key fun _ h => nomatch h
  | cons peer pending ih =>
    obtain ⟨hpeer, hrest⟩ := List.forall_mem_cons.mp hpending
    refine ih hrest fun key hkey => ?_
    rw [PeerChange.setRoutes, Table.lookup_insert_if, Table.lookup_mapValues]
    split
    · next hsame => rw [hsame, hpeer, Option.map_some]
    · next hother =>
      rw [hdevice key (List.forall_mem_cons.mpr ⟨fun h => hother h.symm, hkey⟩), Option.map_map]
      refine Option.map_congr fun row hrow => List.filter_eq_self.mpr fun route hroute => ?_
      obtain ⟨hmem, rfl⟩ := mem_of_byKey hrow
      simpa using hdisjoint.apart hmem (mem_of_byKey hpeer).1 (fun h => hother (h ▸ rfl))
        route hroute

/-- The changes from one list to another leave the routes of the other. -/
theorem peerDiff_routes {device : Device}
    (hdevice : device.Holds current) (hdisjoint : RouteDisjoint rows) :
    ((peerDiff current rows).foldl PeerChange.setRoutes device).Holds rows := by
  have hdiff : peerDiff current rows =
      ((sortedKeys current).filter fun key => (byKey rows key).isNone).map .remove ++
        (upserts current rows).map .upsert := rfl
  rw [hdiff, List.foldl_append]
  refine foldl_setRoutes hdisjoint (fun peer hpeer => (mem_upserts.mp hpeer).1) fun key hkey => ?_
  rw [List.foldl_map]
  refine (Table.lookup_foldl_erase device _ key).trans ?_
  rw [hdevice key]
  simp only [List.mem_filter, mem_sortedKeys, Option.isNone_iff_eq_none]
  cases hrow : byKey rows key with
  | none =>
    split
    · rfl
    · next hgone =>
      rw [byKey_eq_none fun peer hpeer hsame => hgone ⟨⟨peer, hpeer, hsame⟩, rfl⟩]
  | some row =>
    -- not written, so it was on the device already
    obtain ⟨-, rfl⟩ := mem_of_byKey hrow
    rw [if_neg fun h => nomatch h.2]
    by_contra hcurrent
    refine hkey row (mem_upserts.mpr ⟨hrow, fun hsame => hcurrent ?_⟩) rfl
    rw [hsame]

/-- The installed peers are listed rows with distinct keys and routes of their own, they hold back
only what shares a route with them, and installing once more changes nothing.  The changes that lead
to them give the device their routes, and each route to the peer that lists it. -/
theorem installable_applied (hcurrent : (current.map Peer.wgPublicKey).Nodup)
    (hdesired : (desired.map Peer.wgPublicKey).Nodup) :
    let installed := installableWireguardPeers current desired
    (installed.map Peer.wgPublicKey).Nodup ∧
    (∀ peer ∈ installed, byKey desired peer.wgPublicKey = some peer) ∧
    RouteDisjoint installed ∧
    (∀ peer ∈ desired, peer ∉ installed →
      ∃ row ∈ installed, ∃ route ∈ peer.allowedIps, route ∈ row.allowedIps) ∧
    installableWireguardPeers installed desired = installed ∧
    ∀ device : Device, RouteDisjoint current → device.Holds current →
      let applied := (peerDiff current installed).foldl PeerChange.setRoutes device
      applied.Holds installed ∧
      ∀ peer ∈ installed, ∀ route ∈ peer.allowedIps, ∀ key routes,
        applied.lookup key = some routes → (route ∈ routes ↔ key = peer.wgPublicKey) := by
  intro installed
  have hdisjoint : RouteDisjoint installed := installable_disjoint current desired
  obtain ⟨hkeys, hmissing⟩ := installable_settled hcurrent hdesired
  refine ⟨hkeys, fun peer hpeer => byKey_eq_some hdesired (installable_subset _ _ hpeer), hdisjoint,
    hmissing, installable_stable hcurrent hdesired, fun device _ hdevice => ?_⟩
  have hholds := peerDiff_routes hdevice hdisjoint
  refine ⟨hholds, fun peer hpeer route hroute key routes hlookup => ?_⟩
  rw [hholds key] at hlookup
  obtain ⟨row, hrow, rfl⟩ := Option.map_eq_some_iff.mp hlookup
  obtain ⟨hmem, rfl⟩ := mem_of_byKey hrow
  constructor
  · intro hshared
    by_contra hne
    exact hdisjoint.apart hpeer hmem (fun h => hne (h ▸ rfl)) route hroute hshared
  · intro hkey
    rwa [List.inj_on_of_nodup_map hkeys hmem hpeer hkey]

def west (route : String) : Peer := { id := 1, wgPublicKey := "w", allowedIps := [route] }
def east (route : String) : Peer := { id := 2, wgPublicKey := "e", allowedIps := [route] }

/-- Two peers swap their routes. -/
theorem installable_applied_swap :
    let current := [west "10.0.0.1/32", east "10.0.0.2/32"]
    let desired := [west "10.0.0.2/32", east "10.0.0.1/32"]
    let device : Device := AList.insert "e" ["10.0.0.2/32"] (AList.singleton "w" ["10.0.0.1/32"])
    let installed := installableWireguardPeers current desired
    installed = desired ∧
      ((peerDiff current installed).foldl PeerChange.setRoutes device).Holds installed := by
  intro current desired device installed
  have hdevice : Device.Holds device current := by
    intro key
    show AList.lookup key (AList.insert _ _ (AList.insert _ _ ∅)) = _
    rw [Table.lookup_insert_if, Table.lookup_insert_if]
    unfold byKey
    split_ifs with heast hwest
    · subst heast
      rfl
    · subst hwest
      rfl
    · simp [current, west, east, Ne.symm heast, Ne.symm hwest]
  have hdisjoint : RouteDisjoint current := by unfold RouteDisjoint; decide
  exact ⟨by decide,
    ((installable_applied (by decide) (by decide)).2.2.2.2.2 device hdisjoint hdevice).1⟩

end BlakTail.Control
