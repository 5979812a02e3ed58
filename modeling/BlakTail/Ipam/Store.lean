import BlakTail.Foundation.Fallible
import BlakTail.Forwarding.Filter
import BlakTail.Ipam.Pool

/-!
# Addresses, Leases and Reservations

The tables of one organisation that decide who holds an overlay address, and the transactions on
them other than renumbering.  A function takes the tables as each of its statements found them; the
tables it writes to come last.
-/

namespace BlakTail.Ipam

open Foundation Control

def ADDRESS_REUSE_GRACE_SECS : Int := 7 * 24 * 60 * 60
def DEFAULT_TOMBSTONE_RETENTION_SECS : Int := 7 * 24 * 60 * 60
def MAX_RESERVATIONS : Nat := 128

/-! ## Rows -/

structure Node where
  id : Uuid
  name : String
  displayName : String := ""
  wgPublicKey : String
  addresses : List IpAddr
  revokedAt : Option Int := none
  deletedAt : Option Int := none
  deriving DecidableEq

def Node.active (node : Node) : Bool := node.revokedAt.isNone && node.deletedAt.isNone

def Node.label (node : Node) : String :=
  if Text.trim node.displayName = "" then node.name else Text.trim node.displayName

/-- A lease of an address; the key of the table is the address. -/
structure Lease where
  nodeId : Option Uuid
  releasedAt : Option Int
  deriving DecidableEq

structure Reservation where
  id : Uuid
  host : Host
  boundName : Option String
  boundWgPublicKey : Option String
  reason : String
  revision : Nat := 1
  deriving DecidableEq

def Reservation.binds (reservation : Reservation) (name wgPublicKey : String) : Bool :=
  reservation.boundName = some name || reservation.boundWgPublicKey = some wgPublicKey

def Reservation.bindsNode (reservation : Reservation) (node : Node) : Bool :=
  reservation.binds node.name node.wgPublicKey

/-- One device of a renumber plan. -/
structure Move where
  nodeId : Uuid
  name : String
  oldAddresses : List IpAddr
  newAddresses : List IpAddr
  deriving DecidableEq

inductive PlanState where
  | staged
  | completed
  | rolledBack
  deriving DecidableEq

structure Plan where
  id : Uuid
  state : PlanState
  previousPool : Pool
  targetPool : Pool
  moves : List Move
  windowEndsAt : Int
  revision : Nat := 1
  deriving DecidableEq

/-- The rows of one organisation and the clock. -/
structure Tables where
  now : Int
  /-- the first seven bytes of the hash of the organisation's id -/
  digest : BitVec 56
  pool : Pool
  nodes : List Node := []
  leases : Table Host Lease := ∅
  reservations : List Reservation := []
  plans : List Plan := []
  /-- every id given out so far; `Uuid::new_v4` gives none of them again -/
  issued : List Uuid := []

def hostAddress (host : Host) : String := bare host ++ "/32"

/-- `load_nodes`, by name. -/
def loadNodes (tables : Tables) : List Node :=
  tables.nodes.insertionSort fun a b => a.name ≤ b.name

/-- `load_reservations`, by the text of the address. -/
def loadReservations (tables : Tables) : List Reservation :=
  tables.reservations.insertionSort fun a b => hostAddress a.host ≤ hostAddress b.host

def v4Host : IpAddr → Option Host
  | .v4 host => some host
  | .v6 _ => none

/-! ## The IPv6 twin -/

def cgnatOffset (host : Host) : Option Host :=
  if host &&& leading 32 CGNAT_PREFIX = CGNAT_BASE ∧ host ≠ CGNAT_BASE then some (host - CGNAT_BASE)
  else none

/-- `org_ula_address`: `fd`, seven bytes of the digest, four zero bytes and the offset. -/
def orgUlaAddress (digest : BitVec 56) (offset : Host) : IpAddr :=
  .v6 (((0xfd#8 ++ digest) ++ 0#32) ++ offset)

def ipv6Twin (digest : BitVec 56) (host : Host) : Option IpAddr :=
  (cgnatOffset host).map (orgUlaAddress digest)

/-! ## Leases -/

/-- The unreleased lease of a device that is revoked or deleted takes the time of that. -/
def Lease.stampRemoved (nodes : List Node) (lease : Lease) : Option Lease :=
  if lease.releasedAt.isSome then none
  else ((nodes.find? fun node => lease.nodeId = some node.id).filter fun node => !node.active).map
    fun node => { lease with releasedAt := node.deletedAt.or node.revokedAt }

/-- An unreleased lease of a device that has no row. -/
def Lease.orphaned (nodes : List Node) (lease : Lease) : Bool :=
  lease.releasedAt.isNone && !nodes.any fun node => lease.nodeId = some node.id

def Lease.stampOrphaned (nodes : List Node) (time : Int) (lease : Lease) : Option Lease :=
  if lease.orphaned nodes then some { lease with releasedAt := some time } else none

/-- An `UPDATE` of leases, `none` standing for a row its `WHERE` does not match.  It looks for rows
in the leases `seen` at its start.  On PostgreSQL it waits for another transaction that has written
such a row and matches the row again as it is then, with sub-selects still as at the start. -/
def updateLeases (set : Lease → Option Lease) (seen leases : Table Host Lease) : Table Host Lease :=
  leases.mapEntries fun host lease =>
    if ((seen.lookup host).bind set).isSome then (set lease).getD lease else lease

/-- What the two statements of `stamp_releases` found. -/
structure StampViews where
  removed : Tables
  orphaned : Tables

/-- Leases of devices that are gone start their grace period, by two updates that match a row again
if it has changed since. -/
def stampReleases (views : StampViews) (time : Int) (leases : Table Host Lease) :
    Table Host Lease :=
  updateLeases (Lease.stampOrphaned views.orphaned.nodes time) views.orphaned.leases
    (updateLeases (Lease.stampRemoved views.removed.nodes) views.removed.leases leases)

def leaseHeld (lease : Lease) (time : Int) : Bool :=
  match lease.releasedAt with
  | none => true
  | some released => time - ADDRESS_REUSE_GRACE_SECS < released

/-- Every host automatic allocation must skip: device addresses, leases still held or in grace,
and reservations. -/
def blockedHosts (nodes : List Node) (leases : Table Host Lease) (reservations : List Reservation)
    (time : Int) : List Host :=
  nodes.flatMap (fun node => node.addresses.filterMap v4Host) ++
    (leases.entries.filter fun entry => leaseHeld entry.2 time).map Sigma.fst ++
    reservations.map Reservation.host

/-- The upsert of a lease: a row that is there is taken over only where `may` holds of it. -/
def upsertLease (may : Lease → Bool) (leases : Table Host Lease) (host : Host) (nodeId : Uuid) :
    Option (Table Host Lease) :=
  if (leases.lookup host).all may then some (leases.insert host ⟨some nodeId, none⟩) else none

/-- Only a lease that was released a grace period ago is taken over. -/
def takeLease (leases : Table Host Lease) (host : Host) (nodeId : Uuid) (time : Int) :
    Option (Table Host Lease) :=
  upsertLease (fun lease => lease.releasedAt.any (· ≤ time - ADDRESS_REUSE_GRACE_SECS))
    leases host nodeId

/-! ## Enrolment -/

structure Enrolment where
  id : Uuid
  name : String
  wgPublicKey : String

structure EnrolmentViews where
  stamped : StampViews
  pooled : Tables
  listed : Tables
  reserved : Tables
  blockedNodes : Tables
  blockedLeases : Tables
  blockedReservations : Tables

/-- The time is taken before the first statement. -/
def EnrolmentViews.now (views : EnrolmentViews) : Int := views.stamped.removed.now

/-- The hosts an enrolment skips; it sees the releases it stamped itself. -/
def EnrolmentViews.blocked (views : EnrolmentViews) : List Host :=
  blockedHosts views.blockedNodes.nodes
    (stampReleases views.stamped views.now views.blockedLeases.leases)
    views.blockedReservations.reservations views.now

/-- A reservation bound to the device wins over automatic allocation. -/
def allocateReserved (views : EnrolmentViews) (enrolment : Enrolment) (reservation : Reservation)
    (leases : Table Host Lease) : Except ApiError (Table Host Lease × List IpAddr) :=
  match ipv6Twin views.pooled.digest reservation.host with
  | none => .error .corruptData
  | some ipv6 =>
    match (loadNodes views.listed).find? fun node =>
        node.active && node.addresses.contains (.v4 reservation.host) with
    | some holder =>
      .error (.conflict ("address " ++ bare reservation.host ++
        " is reserved for this device but active device " ++ holder.label ++
        " still uses it; revoke or delete that device first"))
    | none =>
      -- the operator chose this device for it, so the grace period does not count
      match upsertLease (fun lease => lease.releasedAt.isSome) leases reservation.host
          enrolment.id with
      | none =>
        .error (.conflict ("reserved address " ++ bare reservation.host ++
          " is being assigned to another enrolment"))
      | some leases => .ok (leases, [.v4 reservation.host, ipv6])

/-- The lowest free host whose lease can be taken. -/
def allocateFree (views : EnrolmentViews) (enrolment : Enrolment) (leases : Table Host Lease) :
    Except ApiError (Table Host Lease × List IpAddr) :=
  let time := views.now
  let pool := views.pooled.pool
  match (pool.hosts.filter fun host => !views.blocked.contains host).findSome? fun host =>
      (takeLease leases host enrolment.id time).map fun leases => (host, leases) with
  | some (host, leases) =>
    match ipv6Twin views.pooled.digest host with
    | some ipv6 => .ok (leases, [.v4 host, ipv6])
    | none => .error .corruptData
  | none =>
    let inGrace := (leases.entries.filter fun entry =>
      entry.2.releasedAt.isSome && leaseHeld entry.2 time).length
    .error (.conflict ("tailnet address pool " ++ pool.cidr ++ " exhausted (" ++
      toString (inGrace + views.reserved.reservations.length) ++ " of " ++ toString pool.usable ++
      " addresses are reserved or in the " ++ toString (ADDRESS_REUSE_GRACE_SECS / 86400) ++
      "-day reuse grace period); an owner can grow the pool under Networks → Addresses"))

/-- The addresses of a device that enrols. -/
def allocate (views : EnrolmentViews) (enrolment : Enrolment) (leases : Table Host Lease) :
    Except ApiError (Table Host Lease × List IpAddr) :=
  let leases := stampReleases views.stamped views.now leases
  match (loadReservations views.reserved).find? fun reservation =>
      reservation.binds enrolment.name enrolment.wgPublicKey with
  | some reservation => allocateReserved views enrolment reservation leases
  | none => allocateFree views enrolment leases

/-- `register_node`: addresses and the device's row. -/
def enrol (enrolment : Enrolment) (views : EnrolmentViews) (tables : Tables) :
    Except ApiError Tables := do
  let (leases, addresses) ← allocate views enrolment tables.leases
  if tables.issued.contains enrolment.id ||
      tables.nodes.any fun node =>
        node.name = enrolment.name || node.wgPublicKey = enrolment.wgPublicKey then
    .error (.conflict "node name, DNS name, public key, or address already exists in org")
  else
    .ok { tables with
      leases := leases
      nodes := tables.nodes ++ [⟨enrolment.id, enrolment.name, "", enrolment.wgPublicKey, addresses,
        none, none⟩]
      issued := enrolment.id :: tables.issued }

/-! ## Reservations -/

structure ReserveInput where
  address : String
  boundName : Option String := none
  boundWgPublicKey : Option String := none
  reason : String := ""

def optionalText (value : Option String) (label : String) : Except ApiError (Option String) :=
  match (value.map Text.trim).filter (· ≠ "") with
  | none => .ok none
  | some value =>
    if 64 < value.toList.length ||
        value.toList.any fun c => Text.isControl c || Text.isWhitespace c then
      .error (.badRequest (label ++ " must be at most 64 characters without spaces"))
    else .ok (some value)

def checkReason (reason : String) : Except ApiError String :=
  let reason := Text.trim reason
  if 256 < reason.toList.length || reason.toList.any Text.isControl then
    .error (.badRequest "reason must be at most 256 characters without control characters")
  else .ok reason

/-- What the statements of a reservation found. -/
structure ReserveViews where
  pooled : Tables
  stamped : StampViews
  reserved : Tables
  listed : Tables

/-- An active device that has the address and that the reservation does not pin. -/
def otherHolder (nodes : List Node) (host : Host) (boundName boundWgPublicKey : Option String) :
    Option Node :=
  (nodes.find? fun node => node.active && node.addresses.contains (.v4 host)).filter fun holder =>
    !(boundName = some holder.name || boundWgPublicKey = some holder.wgPublicKey)

/-- An operator's reservation of an address. -/
def reserve (id : Uuid) (input : ReserveInput) (views : ReserveViews) (tables : Tables) :
    Except ApiError Tables := do
  let boundName ← optionalText input.boundName "device name"
  let boundWgPublicKey ← optionalText input.boundWgPublicKey "WireGuard public key"
  let reason ← checkReason input.reason
  let host ← canonicalPoolAddress input.address views.pooled.pool
  let reservations := loadReservations views.reserved
  match reservations.find? fun reservation => reservation.host = host with
  | some existing =>
    -- replaying the same reservation is a no-op
    if existing.boundName = boundName ∧ existing.boundWgPublicKey = boundWgPublicKey ∧
        existing.reason = reason then .ok tables
    else .error (.conflict (bare host ++ " is already reserved; release that reservation first"))
  | none =>
    if MAX_RESERVATIONS ≤ reservations.length then
      .error (.conflict ("an organisation may hold at most " ++ toString MAX_RESERVATIONS ++
        " address reservations"))
    else
      match reservations.find? fun reservation =>
          (boundName.isSome && reservation.boundName = boundName) ||
            (boundWgPublicKey.isSome && reservation.boundWgPublicKey = boundWgPublicKey) with
      | some other =>
        .error (.conflict ("that device is already bound to reserved address " ++ bare other.host))
      | none =>
        match otherHolder (loadNodes views.listed) host boundName boundWgPublicKey with
        | some holder =>
          .error (.conflict (bare host ++ " is assigned to " ++ holder.label ++
            "; bind the reservation to that device's name to pin it, or choose a free address"))
        | none =>
          if tables.reservations.any fun reservation => reservation.host = host then
            .error (.conflict "that address was reserved concurrently")
          else
            .ok { tables with
              leases := stampReleases views.stamped views.stamped.removed.now tables.leases
              reservations := tables.reservations ++
                [⟨id, host, boundName, boundWgPublicKey, reason, 1⟩] }

/-- `release`; `expected` stands for the etag, a hash of an id and a revision. -/
def release (id : Uuid) (expected : Uuid × Nat) (found tables : Tables) : Except ApiError Tables :=
  match (loadReservations found).find? fun reservation => reservation.id = id with
  | none => .ok tables
  | some current =>
    if (current.id, current.revision) ≠ expected then .error .preconditionFailed
    else if tables.reservations.any fun reservation =>
        reservation.id = current.id && reservation.revision = current.revision then
      .ok { tables with reservations := tables.reservations.filter fun reservation =>
        !(reservation.id = current.id && reservation.revision = current.revision) }
    else .error .preconditionFailed

/-! ## Removal of devices -/

def revoke (id : Uuid) (tables : Tables) : Except ApiError Tables :=
  if tables.nodes.any fun node => node.id = id && node.active then
    .ok { tables with nodes := tables.nodes.map fun node =>
      if node.id = id && node.active then { node with revokedAt := some tables.now } else node }
  else .error .notFound

/-- `tombstone_node`: the row stays, with a name and a key that are free again. -/
def tombstone (id : Uuid) (found tables : Tables) : Except ApiError Tables :=
  match found.nodes.find? fun node => node.id = id && node.deletedAt.isNone with
  | none => .error .notFound
  | some existing =>
    let short := String.ofList ((Forwarding.uuidText id).toList.take 8)
    if tables.nodes.any fun node => node.id = id && node.deletedAt.isNone then
      .ok { tables with nodes := tables.nodes.map fun node =>
        if node.id = id && node.deletedAt.isNone then
          { node with
            deletedAt := some tables.now
            revokedAt := node.revokedAt.or (some tables.now)
            name := existing.name ++ ".deleted." ++ short
            wgPublicKey := existing.wgPublicKey ++ ".deleted" }
        else node }
    else .error .notFound

def purge (tables : Tables) : Tables :=
  { tables with nodes := tables.nodes.filter fun node =>
    !node.deletedAt.any (· < tables.now - DEFAULT_TOMBSTONE_RETENTION_SECS) }

/-! ## What the transactions write -/

variable {tables : Tables} {host : Host} {leases leases' : Table Host Lease}
  {views : EnrolmentViews} {enrolment : Enrolment} {tables' : Tables} {id : Uuid}

theorem mem_loadNodes {node : Node} : node ∈ loadNodes tables ↔ node ∈ tables.nodes :=
  List.mem_insertionSort _

theorem mem_loadReservations {reservation : Reservation} :
    reservation ∈ loadReservations tables ↔ reservation ∈ tables.reservations :=
  List.mem_insertionSort _

theorem v4Host_eq_some {address : IpAddr} : v4Host address = some host ↔ address = .v4 host := by
  cases address with
  | v4 other | v6 other => simp [v4Host]

/-- Hosts behind a lease that still counts are blocked, and so are reserved hosts and those of
devices. -/
theorem mem_blockedHosts {nodes : List Node} {reservations : List Reservation} {time : Int} :
    host ∈ blockedHosts nodes leases reservations time ↔
      (∃ node ∈ nodes, .v4 host ∈ node.addresses) ∨
        (∃ lease, leases.lookup host = some lease ∧ leaseHeld lease time) ∨
        ∃ reservation ∈ reservations, reservation.host = host := by
  unfold blockedHosts
  rw [List.mem_append, List.mem_append, or_assoc]
  refine or_congr ?_ (or_congr ?_ ?_)
  · simp only [List.mem_flatMap, List.mem_filterMap, v4Host_eq_some, exists_eq_right]
  · simp only [List.mem_map, List.mem_filter, Table.lookup_eq_some_iff]
    constructor
    · rintro ⟨⟨key, lease⟩, hentry, rfl⟩
      exact ⟨lease, hentry⟩
    · rintro ⟨lease, hentry⟩
      exact ⟨⟨host, lease⟩, hentry, rfl⟩
  · simp only [List.mem_map]

theorem upsertLease_eq_some {may : Lease → Bool} {nodeId : Uuid}
    (h : upsertLease may leases host nodeId = some leases') :
    (∀ lease, leases.lookup host = some lease → may lease) ∧
      leases' = leases.insert host ⟨some nodeId, none⟩ := by
  obtain ⟨hmay, heq⟩ := Option.ite_none_right_eq_some.mp h
  refine ⟨fun lease hlease => ?_, (Option.some.inj heq).symm⟩
  rw [hlease] at hmay
  exact hmay

/-- The lease of an address that is free to take: there is none, or it was released. -/
def Free (leases : Table Host Lease) (host : Host) : Prop :=
  ∀ lease, leases.lookup host = some lease → lease.releasedAt.isSome

/-- An enrolment got the address of a reservation bound to the device. -/
def ByReservation (views : EnrolmentViews) (enrolment : Enrolment) (host : Host) : Prop :=
  ∃ reservation ∈ views.reserved.reservations,
    reservation.binds enrolment.name enrolment.wgPublicKey ∧ reservation.host = host

/-- An enrolment got a host of the pool that it found free, and whose lease was released a grace
period ago. -/
structure Automatic (views : EnrolmentViews) (enrolment : Enrolment) (leases : Table Host Lease)
    (host : Host) : Prop where
  unbound : ∀ reservation ∈ views.reserved.reservations,
    reservation.binds enrolment.name enrolment.wgPublicKey = false
  inPool : views.pooled.pool.containsIp host
  unblocked : host ∉ views.blocked
  released : ∀ lease,
    (stampReleases views.stamped views.now leases).lookup host = some lease →
      ∃ released, lease.releasedAt = some released ∧
        released ≤ views.now - ADDRESS_REUSE_GRACE_SECS

theorem allocateReserved_eq_ok {reservation : Reservation} {addresses : List IpAddr}
    (h : allocateReserved views enrolment reservation leases = .ok (leases', addresses)) :
    Free leases reservation.host ∧
      leases' = leases.insert reservation.host ⟨some enrolment.id, none⟩ ∧
      ∃ offset, addresses = [.v4 reservation.host, orgUlaAddress views.pooled.digest offset] := by
  unfold allocateReserved at h
  cases htwin : ipv6Twin views.pooled.digest reservation.host with
  | none => rw [htwin] at h; cases h
  | some ipv6 =>
    obtain ⟨offset, -, rfl⟩ := Option.map_eq_some_iff.mp htwin
    rw [htwin] at h
    dsimp only at h
    split at h
    · cases h
    · split at h
      · cases h
      · next leases₁ hupsert =>
        cases h
        obtain ⟨hmay, rfl⟩ := upsertLease_eq_some hupsert
        exact ⟨hmay, rfl, offset, rfl⟩

theorem allocateFree_eq_ok {addresses : List IpAddr}
    (h : allocateFree views enrolment leases = .ok (leases', addresses)) :
    ∃ host offset, views.pooled.pool.containsIp host ∧ host ∉ views.blocked ∧
      (∀ lease, leases.lookup host = some lease → ∃ released, lease.releasedAt = some released ∧
        released ≤ views.now - ADDRESS_REUSE_GRACE_SECS) ∧
      leases' = leases.insert host ⟨some enrolment.id, none⟩ ∧
      addresses = [.v4 host, orgUlaAddress views.pooled.digest offset] := by
  unfold allocateFree at h
  dsimp only at h
  split at h
  · next host leases₁ hfound =>
    obtain ⟨candidate, hcandidate, htaken⟩ := List.exists_of_findSome?_eq_some hfound
    obtain ⟨leases₂, htake, heq⟩ := Option.map_eq_some_iff.mp htaken
    obtain ⟨rfl, rfl⟩ := Prod.mk.inj heq
    obtain ⟨hhost, hfree⟩ := List.mem_filter.mp hcandidate
    obtain ⟨hmay, hinsert⟩ := upsertLease_eq_some htake
    cases htwin : ipv6Twin views.pooled.digest candidate with
    | none => rw [htwin] at h; cases h
    | some ipv6 =>
      obtain ⟨offset, -, rfl⟩ := Option.map_eq_some_iff.mp htwin
      rw [htwin] at h
      cases h
      refine ⟨candidate, offset, Pool.mem_hosts.mp hhost, by simpa using hfree, ?_, hinsert, rfl⟩
      intro lease hlease
      obtain ⟨released, hreleased, hgrace⟩ := (Option.any_eq_true _ _).mp (hmay lease hlease)
      exact ⟨released, hreleased, by simpa using hgrace⟩
  · cases h

/-- What an enrolment writes: a lease nobody else has, and a device with its address. -/
theorem enrol_eq_ok (h : enrol enrolment views tables = .ok tables') :
    ∃ host offset,
      Free (stampReleases views.stamped views.now tables.leases) host ∧
      (ByReservation views enrolment host ∨ Automatic views enrolment tables.leases host) ∧
      enrolment.id ∉ tables.issued ∧
      tables' = { tables with
        leases := (stampReleases views.stamped views.now tables.leases).insert host
          ⟨some enrolment.id, none⟩
        nodes := tables.nodes ++ [⟨enrolment.id, enrolment.name, "", enrolment.wgPublicKey,
          [.v4 host, orgUlaAddress views.pooled.digest offset], none, none⟩]
        issued := enrolment.id :: tables.issued } := by
  obtain ⟨⟨leases, addresses⟩, hallocate, h⟩ := bind_ok_iff.mp h
  split_ifs at h with htaken
  have hfresh : enrolment.id ∉ tables.issued := by
    intro hissued
    exact htaken (by rw [List.contains_iff_mem.mpr hissued, Bool.true_or])
  unfold allocate at hallocate
  split at hallocate
  · next reservation hbound =>
    obtain ⟨hfree, rfl, offset, rfl⟩ := allocateReserved_eq_ok hallocate
    refine ⟨reservation.host, offset, hfree, .inl ⟨reservation, ?_, ?_, rfl⟩, hfresh,
      (Except.ok.inj h).symm⟩
    · exact mem_loadReservations.mp (List.mem_of_find?_eq_some hbound)
    · exact (List.find?_eq_some_iff_append.mp hbound).1
  · next hunbound =>
    obtain ⟨host, offset, hpool, hunblocked, hreleased, rfl, rfl⟩ := allocateFree_eq_ok hallocate
    refine ⟨host, offset, fun lease hlease => ?_, .inr ⟨fun reservation hmem => ?_, hpool,
      hunblocked, hreleased⟩, hfresh, (Except.ok.inj h).symm⟩
    · obtain ⟨released, heq, -⟩ := hreleased lease hlease
      rw [heq]
      rfl
    · simpa using List.find?_eq_none.mp hunbound reservation (mem_loadReservations.mpr hmem)

/-- What a reservation writes: nothing if it was there, else a row for a host of the pool. -/
theorem reserve_eq_ok {input : ReserveInput} {views : ReserveViews}
    (h : reserve id input views tables = .ok tables') :
    tables' = tables ∨
      ∃ reservation : Reservation, views.pooled.pool.containsIp reservation.host ∧
        tables' = { tables with
          leases := stampReleases views.stamped views.stamped.removed.now tables.leases
          reservations := tables.reservations ++ [reservation] } := by
  obtain ⟨boundName, -, h⟩ := bind_ok_iff.mp h
  obtain ⟨boundWgPublicKey, -, h⟩ := bind_ok_iff.mp h
  obtain ⟨reason, -, h⟩ := bind_ok_iff.mp h
  obtain ⟨host, hhost, h⟩ := bind_ok_iff.mp h
  dsimp only at h
  split at h
  · split_ifs at h
    exact .inl (Except.ok.inj h).symm
  · split at h
    · cases h
    · split at h
      · cases h
      · split at h
        · cases h
        · split at h
          · cases h
          · exact .inr ⟨⟨id, host, boundName, boundWgPublicKey, reason, 1⟩,
              contains_of_canonical hhost, (Except.ok.inj h).symm⟩

theorem release_eq_ok {expected : Uuid × Nat} {found : Tables}
    (h : release id expected found tables = .ok tables') :
    ∃ keep : Reservation → Bool,
      tables' = { tables with reservations := tables.reservations.filter keep } := by
  unfold release at h
  split at h
  · refine ⟨fun _ => true, ?_⟩
    rw [List.filter_true]
    exact (Except.ok.inj h).symm
  · split_ifs at h
    exact ⟨_, (Except.ok.inj h).symm⟩

/-- What becomes of a device's row when it is revoked, deleted or purged: it keeps its id and its
addresses, and it is no more active than before. -/
structure Retired (old new : Node) : Prop where
  id : new.id = old.id
  addresses : new.addresses = old.addresses
  active : new.active → old.active

theorem Retired.refl (node : Node) : Retired node node := ⟨rfl, rfl, fun h => h⟩

theorem revoke_eq_ok (h : revoke id tables = .ok tables') :
    ∃ change : Node → Node, (∀ node, Retired node (change node)) ∧
      tables' = { tables with nodes := tables.nodes.map change } := by
  unfold revoke at h
  split_ifs at h
  refine ⟨_, fun node => ?_, (Except.ok.inj h).symm⟩
  split_ifs
  · exact ⟨rfl, rfl, fun hactive => by simp [Node.active] at hactive⟩
  · exact Retired.refl node

theorem tombstone_eq_ok {found : Tables} (h : tombstone id found tables = .ok tables') :
    ∃ change : Node → Node, (∀ node, Retired node (change node)) ∧
      tables' = { tables with nodes := tables.nodes.map change } := by
  unfold tombstone at h
  split at h
  · cases h
  · split_ifs at h
    refine ⟨_, fun node => ?_, (Except.ok.inj h).symm⟩
    split_ifs
    · exact ⟨rfl, rfl, fun hactive => by simp [Node.active] at hactive⟩
    · exact Retired.refl node

end BlakTail.Ipam
