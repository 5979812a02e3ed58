import BlakTail.Ipam.Ownership

/-!
# Addresses Stay in the Pool

Transactions that run one after another.  While no plan is staged, every reservation and every
IPv4 address of an active device is a usable host of the current pool.  A rollback looks for devices
outside the pool it restores but not for reservations: one that was made from the new pool while the
plan was staged stays behind, and the device it is bound to enrols outside the pool.
-/

namespace BlakTail.Ipam

open Foundation Control

/-- A device that no staged plan moves. -/
def Settled (tables : Tables) (node : Node) : Prop :=
  ∀ plan ∈ tables.plans, plan.state = .staged → ∀ move ∈ plan.moves, move.nodeId ≠ node.id

/-- A pool covers the IPv4 addresses of a list. -/
def Covers (pool : Pool) (addresses : List IpAddr) : Prop :=
  ∀ host, .v4 host ∈ addresses → pool.containsIp host

/-- The invariant, also for the time a plan is staged. -/
structure Inside (tables : Tables) : Prop where
  reserved : ∀ reservation ∈ tables.reservations,
    tables.pool.containsIp reservation.host
  settled : ∀ node ∈ tables.nodes, node.active → Settled tables node →
    Covers tables.pool node.addresses
  /-- a staged plan goes from its previous pool to the current one -/
  staged : ∀ plan ∈ tables.plans, plan.state = .staged → plan.targetPool = tables.pool ∧
    ∀ move ∈ plan.moves, Covers plan.targetPool move.newAddresses ∧
      Covers plan.previousPool move.oldAddresses

/-- A rollback to another pool is asked for only while that pool covers every reservation. -/
def RollbackCovered (tables : Tables) : Request → Prop
  | .finish planId _ .rollback =>
    ∀ plan ∈ tables.plans, plan.id = planId → plan.state = .staged →
      plan.previousPool ≠ plan.targetPool →
      ∀ reservation ∈ tables.reservations,
        plan.previousPool.containsIp reservation.host
  | _ => True

instance (tables : Tables) (request : Request) : Decidable (RollbackCovered tables request) := by
  unfold RollbackCovered
  split
  · infer_instance
  · infer_instance

/-! ## One transaction -/

variable {tables tables' : Tables} {nodes : List Node}

theorem enrol_inside {enrolment : Enrolment} {views : EnrolmentViews} (h : Inside tables)
    (hpooled : views.pooled = tables) (hreserved : views.reserved = tables)
    (henrol : enrol enrolment views tables = .ok tables') : Inside tables' := by
  obtain ⟨host, offset, -, hgot, -, rfl⟩ := enrol_eq_ok henrol
  have hhost : tables.pool.containsIp host := by
    rcases hgot with ⟨reservation, hmem, -, rfl⟩ | hautomatic
    · exact h.reserved reservation (hreserved ▸ hmem)
    · exact hpooled ▸ hautomatic.inPool
  refine { h with settled := fun node hnode hactive hsettled => ?_ }
  rcases List.mem_append.mp hnode with hnode | hnode
  · exact h.settled node hnode hactive hsettled
  · cases List.mem_singleton.mp hnode
    intro other hother
    have heq : other = host := by simpa [orgUlaAddress] using hother
    exact heq ▸ hhost

theorem reserve_inside {id : Uuid} {input : ReserveInput} {views : ReserveViews} (h : Inside tables)
    (hpooled : views.pooled = tables) (hreserve : reserve id input views tables = .ok tables') :
    Inside tables' := by
  rcases reserve_eq_ok hreserve with rfl | ⟨reservation, hinside, rfl⟩
  · exact h
  · refine { h with reserved := fun row hrow => ?_ }
    rcases List.mem_append.mp hrow with hrow | hrow
    · exact h.reserved row hrow
    · cases List.mem_singleton.mp hrow
      exact hpooled ▸ hinside

theorem retire_inside (h : Inside tables)
    (hold : ∀ node ∈ nodes, ∃ old ∈ tables.nodes, Retired old node) :
    Inside { tables with nodes := nodes } := by
  refine { h with settled := fun node hnode hactive hsettled => ?_ }
  obtain ⟨old, hmem, hretired⟩ := hold node hnode
  rw [hretired.addresses]
  refine h.settled old hmem (hretired.active hactive) fun plan hplan hstaged move hmove => ?_
  exact hretired.id ▸ hsettled plan hplan hstaged move hmove

/-- The moves of a plan go to the target. -/
theorem Moves.covers {wanted : Wanted} {current : Pool} {reservations : List Reservation}
    (hsound : wanted.Sound current nodes reservations) {device : Node × Option Host}
    (hdevice : device ∈ wanted.devices) {move : Move} (h : Moves wanted.target device move) :
    Covers wanted.target move.newAddresses := by
  intro host hhost
  obtain ⟨new, digest, offset, hnew, hinside⟩ := h.new
  rw [hnew] at hhost
  have heq : host = new := by simpa [orgUlaAddress] using hhost
  subst heq
  exact hinside.elim (hsound.asked device hdevice host) fun hcontains => hcontains

/-- Staging a plan in tables that nobody else changes. -/
theorem create_inside {id : Uuid} {input : PlanInput} {acl dns : String} {views : CreateViews}
    (howned : Owned tables) (h : Inside tables) (hsummarised : views.summarised = tables)
    (hpooled : views.planned.pooled = tables) (hlisted : views.planned.listed = tables)
    (hreserved : views.planned.reserved = tables)
    (hcreate : create id input acl dns views tables = .ok tables') : Inside tables' := by
  obtain ⟨-, ⟨planned, wanted, leases, nodes, windowEndsAt, hcurrent, hwanted, htarget, hunblocked,
    hmoves, hstage, -, rfl⟩, hunstaged⟩ := create_eq_ok hcreate
  rw [hsummarised] at hunstaged
  rw [hpooled] at hcurrent hwanted
  rw [hlisted, hreserved] at hwanted
  have hsound := wanted_sound hwanted
  have hapart : (planned.moves.map Move.nodeId).Nodup := by
    rw [moves_ids hmoves]
    exact hsound.apart (loadNodes_ids howned.ids)
  have hnodes := stageMoves_nodes hstage
  rw [foldl_setAddresses (fun move => move.newAddresses ++ move.oldAddresses) hapart] at hnodes
  subst hnodes
  -- no plan is staged, so before the staging every active device is inside the current pool
  have hinside : ∀ node ∈ tables.nodes, node.active → Covers tables.pool node.addresses :=
    fun node hnode hactive => h.settled node hnode hactive fun plan hplan hstaged =>
      absurd hstaged (hunstaged plan hplan)
  have hpool : (if planned.target ≠ planned.current then planned.target else tables.pool) =
      wanted.target := by
    split_ifs with hchanged
    · exact htarget
    · rw [← hcurrent, ← htarget, not_not.mp hchanged]
  refine ⟨?_, ?_, ?_⟩
  · intro reservation hreservation
    rw [hpool]
    rcases hsound.covers with hsame | hcovers
    · rw [hsame]
      exact h.reserved reservation hreservation
    · exact (hcovers hunblocked).1 reservation (mem_loadReservations.mpr hreservation)
  · intro node hnode hactive hsettled
    obtain ⟨old, hold, rfl⟩ := List.mem_map.mp hnode
    rw [readdress_active] at hactive
    have hstays : ∀ move ∈ planned.moves, move.nodeId ≠ old.id := by
      intro move hmove
      have hne := hsettled _ (List.mem_append_right _ List.mem_cons_self) ?_ move hmove
      · rwa [readdress_id] at hne
      · exact if_neg fun hempty => absurd hmove (by simp [List.isEmpty_iff.mp hempty])
    rw [readdress_other _ hstays]
    rw [hpool]
    rcases hsound.covers with hsame | hcovers
    · rw [hsame]
      exact hinside old hold hactive
    · refine fun host hhost =>
        (hcovers hunblocked).2 old (mem_loadNodes.mpr hold) hactive ?_ (.v4 host) hhost rfl
      rintro device hdevice rfl
      have hmem : device.1.id ∈ planned.moves.map Move.nodeId := by
        rw [moves_ids hmoves]
        exact List.mem_map.mpr ⟨device, hdevice, rfl⟩
      obtain ⟨move, hmove, hid⟩ := List.mem_map.mp hmem
      exact hstays move hmove hid
  · intro plan hplan hstaged
    rcases List.mem_append.mp hplan with hplan | hplan
    · exact absurd hstaged (hunstaged plan hplan)
    · cases List.mem_singleton.mp hplan
      refine ⟨htarget.trans hpool.symm, fun move hmove => ?_⟩
      obtain ⟨device, hdevice, hmoves⟩ := moves_of_mem hmoves hmove
      obtain ⟨hmem, hactive⟩ := hsound.devices device hdevice
      refine ⟨?_, ?_⟩
      · rw [htarget]
        exact hmoves.covers hsound hdevice
      · rw [hcurrent, hmoves.old]
        exact hinside device.1 (mem_loadNodes.mp hmem) hactive

theorem any_outside_iff {addresses : List IpAddr} {pool : Pool} :
    (addresses.any fun address => address.isIpv4 && !pool.contains address) ↔
      ¬Covers pool addresses := by
  simp only [List.any_eq_true, Covers, not_forall]
  constructor
  · rintro ⟨address, hmem, houtside⟩
    cases address with
    | v4 host => exact ⟨host, hmem, by simpa [Pool.contains, IpAddr.isIpv4] using houtside⟩
    | v6 bits => cases houtside
  · rintro ⟨host, hmem, houtside⟩
    exact ⟨.v4 host, hmem, by simpa [Pool.contains, IpAddr.isIpv4] using houtside⟩

/-- What a rollback finds no device outside of covers them all. -/
theorem strandedNode_eq_none {plan : Plan} : strandedNode plan nodes = none ↔
    ∀ node ∈ nodes, node.active → (∀ move ∈ plan.moves, move.nodeId ≠ node.id) →
      Covers plan.previousPool node.addresses := by
  unfold strandedNode
  simp only [List.find?_eq_none, Bool.and_eq_true, any_outside_iff, Bool.not_eq_true',
    List.contains_eq_mem, decide_eq_false_iff_not, List.mem_map, not_exists, not_and, not_not,
    and_imp, ne_eq]

/-- The pool that is current once a plan is finished. -/
def Finish.pool (how : Finish) (plan : Plan) : Pool :=
  match how with
  | .complete => plan.targetPool
  | .rollback => plan.previousPool

theorem finish_inside {planId : Uuid} {how : Finish} {views : FinishViews} (howned : Owned tables)
    (h : Inside tables) (hplanned : views.planned = tables) (hlisted : views.listed = tables)
    (hcovered : how = .rollback → ∀ plan ∈ tables.plans, plan.id = planId → plan.state = .staged →
      plan.previousPool ≠ plan.targetPool →
      ∀ reservation ∈ tables.reservations, plan.previousPool.containsIp reservation.host)
    (hfinished : Finished planId how views tables tables') : Inside tables' := by
  obtain ⟨plan, hplan, hplanId, row, hrow, hid, -, hstaged, hstranded, state, hclosed,
    hopen, rfl⟩ :=
    hfinished.row howned (hplanned ▸ Later.refl tables)
  rw [hplanned] at hplan
  rw [hlisted] at hstranded
  obtain rfl := howned.book.plan_eq hrow hplan hid
  have hsame := row.close_same state
  obtain ⟨-, hnone⟩ := howned.book.close hrow hstaged (fun other => (hsame other).1)
    (fun other => (hsame other).2.1) hclosed hopen
  obtain ⟨htarget, hmoves⟩ := h.staged row hrow hstaged
  have hpool : (if how = .rollback ∧ row.previousPool ≠ row.targetPool then row.previousPool
      else tables.pool) = how.pool row := by
    cases how with
    | complete => exact htarget.symm
    | rollback =>
      by_cases hsamePool : row.previousPool = row.targetPool
      · rw [if_neg fun hboth => hboth.2 hsamePool]
        exact htarget.symm.trans hsamePool.symm
      · exact if_pos ⟨rfl, hsamePool⟩
  -- a rollback to the same pool, like a completion, keeps the current one
  have hkeeps : (how = .rollback ∧ row.previousPool ≠ row.targetPool) ∨
      how.pool row = tables.pool := by
    by_cases hboth : how = .rollback ∧ row.previousPool ≠ row.targetPool
    · exact .inl hboth
    · rw [if_neg hboth] at hpool
      exact .inr hpool.symm
  refine ⟨?_, ?_, fun other hother hstill => absurd hstill (hnone other hother)⟩
  · intro reservation hreservation
    rw [hpool]
    rcases hkeeps with ⟨rfl, hchanged⟩ | hkept
    · exact hcovered rfl row hrow hplanId hstaged hchanged reservation hreservation
    · rw [hkept]
      exact h.reserved reservation hreservation
  · intro node hnode hactive _
    obtain ⟨old, hold, rfl⟩ := List.mem_map.mp hnode
    rw [readdress_active] at hactive
    rw [hpool]
    rcases readdress_cases (fun move => (how.split move).1) (howned.book.apart row hrow) old with
      ⟨move, hmove, -, haddresses⟩ | ⟨hstays, hold'⟩
    · rw [haddresses]
      cases how with
      | complete => exact (hmoves move hmove).1
      | rollback => exact (hmoves move hmove).2
    · rw [hold']
      rcases hkeeps with ⟨rfl, hchanged⟩ | hkept
      · exact strandedNode_eq_none.mp (hstranded rfl hchanged) old (mem_loadNodes.mpr hold) hactive
          hstays
      · rw [hkept]
        refine h.settled old hold hactive fun other hother hstill => ?_
        rw [howned.book.single other hother row hrow hstill hstaged]
        exact hstays

/-! ## Serial runs -/

/-- A transaction that runs alone changes nothing or writes what it read. -/
theorem serial_eq (tables : Tables) (request : Request) :
    ipam.serial tables request = tables ∨
      request.write (List.replicate (ipam.reads request) tables) tables =
        .ok (ipam.serial tables request) := by
  unfold Protocol.serial
  cases hwrite : ipam.write request (List.replicate (ipam.reads request) tables) tables with
  | none => exact .inl rfl
  | some tables' => exact .inr (write_eq_ok hwrite)

theorem serial_inside (howned : Owned tables) (h : Inside tables) {request : Request}
    (hcovered : RollbackCovered tables request) : Inside (ipam.serial tables request) := by
  rcases serial_eq tables request with hsame | hwrite
  · rw [hsame]
    exact h
  · cases request with
    | enrol enrolment => exact enrol_inside h rfl rfl hwrite
    | reserve id input => exact reserve_inside h rfl hwrite
    | release id expected =>
      obtain ⟨keep, heq⟩ := release_eq_ok hwrite
      rw [heq]
      refine { h with reserved := fun reservation hmem => ?_ }
      exact h.reserved reservation (List.mem_filter.mp hmem).1
    | create id input acl dns => exact create_inside howned h rfl rfl rfl rfl hwrite
    | finish planId expected how =>
      refine finish_inside howned h rfl rfl (fun hrollback => ?_) (finish_eq_ok hwrite)
      subst hrollback
      exact hcovered
    | completeDue =>
      rcases completeDue_eq_ok hwrite with heq | ⟨planId, hfinished⟩
      · rw [heq]
        exact h
      · exact finish_inside howned h rfl rfl (fun hrollback => by cases hrollback) hfinished
    | revoke id =>
      obtain ⟨change, hretired, heq⟩ := revoke_eq_ok hwrite
      rw [heq]
      exact retire_inside h (mem_map_retired hretired)
    | tombstone id =>
      obtain ⟨change, hretired, heq⟩ := tombstone_eq_ok hwrite
      rw [heq]
      exact retire_inside h (mem_map_retired hretired)
    | purge =>
      exact retire_inside h fun node hnode =>
        ⟨node, (List.mem_filter.mp hnode).1, Retired.refl node⟩
    | tick seconds =>
      exact { h with }

/-- In every serial run in which rollbacks to another pool are asked for only while that pool covers
the reservations: when no plan is staged, the reservations and the IPv4 addresses of active devices
are usable hosts of the current pool. -/
theorem pool_membership (now : Int) (digest : BitVec 56) (pool : Pool) (requests : List Request)
    (hcovered : Along ipam.serial RollbackCovered (Tables.empty now digest pool) requests) :
    let tables := run ipam.serial (Tables.empty now digest pool) requests
    (∀ plan ∈ tables.plans, plan.state ≠ .staged) →
      (∀ reservation ∈ tables.reservations, reservation.host ∈ tables.pool.hosts) ∧
      ∀ node ∈ tables.nodes, node.active → ∀ host, .v4 host ∈ node.addresses →
        host ∈ tables.pool.hosts := by
  intro tables hunstaged
  have hstep : ∀ tables request, RollbackCovered tables request →
      Owned tables ∧ Inside tables →
      Owned (ipam.serial tables request) ∧ Inside (ipam.serial tables request) :=
    fun tables request hcovered hinv =>
      ⟨Protocol.serial_invariant owned_keeps hinv.1 request (request.undisturbed_serial tables),
        serial_inside hinv.1 hinv.2 hcovered⟩
  obtain ⟨-, hinside⟩ := run_invariant_along hstep hcovered
    ⟨owned_empty now digest pool, nofun, nofun, nofun⟩
  refine ⟨fun reservation hmem => Pool.mem_hosts.mpr (hinside.reserved reservation hmem), ?_⟩
  intro node hnode hactive host hhost
  refine Pool.mem_hosts.mpr (hinside.settled node hnode hactive ?_ host hhost)
  exact fun plan hplan hstaged => absurd hstaged (hunstaged plan hplan)

/-- A pool change that is rolled back after a second device enrolled and left again. -/
def changeTakenBack : List Request :=
  [.enrol ⟨1, "web", "k1"⟩, .create 10 { pool := some "100.64.4.0/24" } "" "",
    .enrol ⟨2, "db", "k2"⟩, .tombstone 2, .finish 10 (some (10, 1)) .rollback,
    .enrol ⟨3, "db", "k3"⟩]

theorem pool_membership_changeTakenBack :
    let tables := run ipam.serial (Tables.empty 1000 0 officePool) changeTakenBack
    (∃ node ∈ tables.nodes, node.id = 3 ∧ node.active ∧ .v4 0x64400002 ∈ node.addresses) ∧
      ∀ node ∈ tables.nodes, node.active → ∀ host, .v4 host ∈ node.addresses →
        host ∈ tables.pool.hosts :=
  ⟨by decide +kernel,
    (pool_membership 1000 0 officePool changeTakenBack (by decide +kernel) (by decide +kernel)).2⟩

/-- A reservation for `db` is made from the new pool, and the change is rolled back. -/
def reservedInWindow : List Request :=
  [.enrol ⟨1, "web", "k1"⟩, .create 10 { pool := some "100.64.4.0/24" } "" "",
    .reserve 20 { address := "100.64.4.50", boundName := some "db" },
    .finish 10 (some (10, 1)) .rollback, .enrol ⟨2, "db", "k2"⟩]

/-- The reservation stays in the abandoned pool, and `db` enrols there. -/
theorem reservedInWindow_outside :
    let tables := run ipam.serial (Tables.empty 1000 0 officePool) reservedInWindow
    tables.pool = officePool ∧ (∀ plan ∈ tables.plans, plan.state ≠ .staged) ∧
      (∃ reservation ∈ tables.reservations, reservation.host ∉ tables.pool.hosts) ∧
      ∃ node ∈ tables.nodes, node.name = "db" ∧ node.active ∧
        .v4 0x64400432 ∈ node.addresses ∧ (0x64400432 : Host) ∉ tables.pool.hosts := by
  decide +kernel

end BlakTail.Ipam
