import BlakTail.Ipam.Renumber

/-!
# Who Owns an Address

No interleaving of the transactions gives one IPv4 address to two active devices: every address of
an active device is backed by an unreleased lease that names it, and an unreleased lease is never
taken over.  A transaction may act on rows that others have changed since it read them; what it can
rely on is that the rows it finds now came from the rows it read.

One thing breaks this.  An update that stamps the leases of purged devices matches a row it had to
wait for again, against the devices it saw at its start; a device that took the lease over in
between is none of them, and its lease is stamped although it is active.
-/

namespace BlakTail.Ipam

open Foundation Control

/-- A device has the unreleased lease of an address. -/
def Holds (leases : Table Host Lease) (id : Uuid) (host : Host) : Prop :=
  leases.lookup host = some ⟨some id, none⟩

/-- The plans of an organisation: one at a time is staged, and it moves a device once. -/
structure PlanBook (plans : List Plan) (issued : List Uuid) : Prop where
  ids : (plans.map Plan.id).Nodup
  issued : ∀ plan ∈ plans, plan.id ∈ issued
  apart : ∀ plan ∈ plans, (plan.moves.map Move.nodeId).Nodup
  single : ∀ plan ∈ plans, ∀ other ∈ plans, plan.state = .staged → other.state = .staged →
    plan = other

/-- The invariant of the committed tables. -/
structure Owned (tables : Tables) : Prop where
  ids : (tables.nodes.map Node.id).Nodup
  issued : ∀ node ∈ tables.nodes, node.id ∈ tables.issued
  leased : ∀ host lease id, tables.leases.lookup host = some lease → lease.nodeId = some id →
    id ∈ tables.issued
  held : ∀ node ∈ tables.nodes, node.active → ∀ host, .v4 host ∈ node.addresses →
    Holds tables.leases node.id host
  /-- a device that moves has both addresses while its plan is staged -/
  moved : ∀ plan ∈ tables.plans, plan.state = .staged → ∀ move ∈ plan.moves,
    move.nodeId ∈ tables.issued ∧ ∀ node ∈ tables.nodes, node.id = move.nodeId →
      node.addresses = move.newAddresses ++ move.oldAddresses
  book : PlanBook tables.plans tables.issued

/-- The tables at a later time: ids are not given out again, so a row with an id that was there
came from a row that was there. -/
structure Later (view now : Tables) : Prop where
  clock : view.now ≤ now.now
  issued : ∀ id ∈ view.issued, id ∈ now.issued
  nodes : ∀ node ∈ now.nodes, node.id ∈ view.issued → ∃ old ∈ view.nodes, old.id = node.id ∧
    (node.active → old.active)
  plans : ∀ plan ∈ view.plans, ∃ row ∈ now.plans, row.id = plan.id ∧ row.moves = plan.moves

/-- No device's addresses changed in between. -/
def Still (view now : Tables) : Prop :=
  ∀ old ∈ view.nodes, ∀ node ∈ now.nodes, old.id = node.id → old.addresses = node.addresses

theorem Later.refl (tables : Tables) : Later tables tables :=
  ⟨le_refl _, fun _ h => h, fun node hnode _ => ⟨node, hnode, rfl, fun h => h⟩,
    fun plan hplan => ⟨plan, hplan, rfl, rfl⟩⟩

theorem Later.trans {a b c : Tables} (hab : Later a b) (hbc : Later b c) : Later a c := by
  refine ⟨hab.clock.trans hbc.clock, fun id hid => hbc.issued id (hab.issued id hid), ?_, ?_⟩
  · intro node hnode hid
    obtain ⟨mid, hmid, hmidId, hmidActive⟩ := hbc.nodes node hnode (hab.issued _ hid)
    obtain ⟨old, hold, holdId, holdActive⟩ := hab.nodes mid hmid (by rwa [hmidId])
    exact ⟨old, hold, holdId.trans hmidId, fun hactive => holdActive (hmidActive hactive)⟩
  · intro plan hplan
    obtain ⟨mid, hmid, hmidId, hmidMoves⟩ := hab.plans plan hplan
    obtain ⟨row, hrow, hrowId, hrowMoves⟩ := hbc.plans mid hmid
    exact ⟨row, hrow, hrowId.trans hmidId, hrowMoves.trans hmidMoves⟩

variable {tables : Tables}

theorem Owned.node_eq (h : Owned tables) {a b : Node} (ha : a ∈ tables.nodes)
    (hb : b ∈ tables.nodes) (hid : a.id = b.id) : a = b :=
  List.inj_on_of_nodup_map h.ids ha hb hid

theorem Still.refl (h : Owned tables) : Still tables tables :=
  fun _ hold _ hnode hid => by rw [h.node_eq hold hnode hid]

theorem Still.trans {a b c : Tables}
    (ha : Owned a) (hlater : Later a b) (hab : Still a b) (hnext : Later b c)
    (hbc : Still b c) : Still a c := by
  intro old hold node hnode hid
  have hissued : node.id ∈ b.issued := hid ▸ hlater.issued _ (ha.issued old hold)
  obtain ⟨mid, hmid, hmidId, -⟩ := hnext.nodes node hnode hissued
  exact (hab old hold mid hmid (hid.trans hmidId.symm)).trans (hbc mid hmid node hnode hmidId)

/-- What a committed transaction does to the tables; one that does not wait for the lock leaves the
addresses of devices alone. -/
structure Advance (waits : Bool) (tables tables' : Tables) : Prop where
  owned : Owned tables'
  later : Later tables tables'
  still : waits = false → Still tables tables'

/-! ## Plans -/

section PlanBook

variable {plans : List Plan} {issued : List Uuid}

section

variable (h : PlanBook plans issued)
include h

theorem PlanBook.plan_eq {a b : Plan} (ha : a ∈ plans) (hb : b ∈ plans)
    (hid : a.id = b.id) : a = b :=
  List.inj_on_of_nodup_map h.ids ha hb hid

theorem PlanBook.grow (id : Uuid) : PlanBook plans (id :: issued) :=
  { h with issued := fun plan hplan => List.mem_cons_of_mem _ (h.issued plan hplan) }

/-- A new plan is staged only when no other is. -/
theorem PlanBook.add {plan : Plan} (hfresh : plan.id ∉ issued)
    (hapart : (plan.moves.map Move.nodeId).Nodup)
    (hunstaged : plan.state = .staged → ∀ other ∈ plans, other.state ≠ .staged) :
    PlanBook (plans ++ [plan]) (plan.id :: issued) := by
  have hcases : ∀ {row}, row ∈ plans ++ [plan] → row ∈ plans ∨ row = plan := fun hrow =>
    (List.mem_append.mp hrow).imp_right List.mem_singleton.mp
  refine ⟨?_, fun row hrow => ?_, fun row hrow => ?_,
    fun row hrow other hother hstaged hstaged' => ?_⟩
  · rw [List.map_append, List.nodup_append]
    refine ⟨h.ids, List.nodup_singleton _, ?_⟩
    rintro id hid other hother rfl
    obtain ⟨row, hrow, rfl⟩ := List.mem_map.mp hid
    exact hfresh (List.mem_singleton.mp hother ▸ h.issued row hrow)
  · rcases hcases hrow with hrow | rfl
    · exact List.mem_cons_of_mem _ (h.issued row hrow)
    · exact List.mem_cons_self
  · rcases hcases hrow with hrow | rfl
    · exact h.apart row hrow
    · exact hapart
  · rcases hcases hrow with hold | hnew
    · rcases hcases hother with hold' | rfl
      · exact h.single row hold other hold' hstaged hstaged'
      · exact absurd hstaged (hunstaged hstaged' row hold)
    · rcases hcases hother with hold' | hnew'
      · exact absurd hstaged' (hunstaged (hnew ▸ hstaged) other hold')
      · rw [hnew, hnew']

/-- A plan that is finished leaves none staged. -/
theorem PlanBook.close {row : Plan} (hrow : row ∈ plans) (hstaged : row.state = .staged)
    {close : Plan → Plan} (hid : ∀ plan, (close plan).id = plan.id)
    (hmoves : ∀ plan, (close plan).moves = plan.moves) (hclosed : (close row).state ≠ .staged)
    (hopen : ∀ plan, (close plan).state = .staged → plan.state = .staged) :
    PlanBook (plans.map close) issued ∧ ∀ plan ∈ plans.map close, plan.state ≠ .staged := by
  have hnone : ∀ plan ∈ plans.map close, plan.state ≠ .staged := by
    intro plan hplan hstill
    obtain ⟨old, hold, rfl⟩ := List.mem_map.mp hplan
    rw [h.single old hold row hrow (hopen old hstill) hstaged] at hstill
    exact hclosed hstill
  refine ⟨⟨?_, fun plan hplan => ?_, fun plan hplan => ?_, fun plan hplan other _ hstill _ => ?_⟩,
    hnone⟩
  · rw [List.map_map, show Plan.id ∘ close = Plan.id from funext hid]
    exact h.ids
  · obtain ⟨old, hold, rfl⟩ := List.mem_map.mp hplan
    exact hid old ▸ h.issued old hold
  · obtain ⟨old, hold, rfl⟩ := List.mem_map.mp hplan
    exact hmoves old ▸ h.apart old hold
  · exact absurd hstill (hnone plan hplan)

end

end PlanBook

/-! ## Changes that keep the invariant -/

variable {waits : Bool}

theorem Advance.refl (h : Owned tables) : Advance waits tables tables :=
  ⟨h, Later.refl tables, fun _ => Still.refl h⟩

variable {nodes : List Node}

/-- Rows of devices that are retired or gone. -/
theorem advance_nodes (h : Owned tables)
    (hids : (nodes.map Node.id).Sublist (tables.nodes.map Node.id))
    (hold : ∀ node ∈ nodes, ∃ old ∈ tables.nodes, Retired old node) :
    Advance waits tables { tables with nodes := nodes } := by
  refine ⟨{ h with
    ids := h.ids.sublist hids
    issued := fun node hnode => ?_
    held := fun node hnode hactive host hhost => ?_
    moved := fun plan hplan hstaged move hmove => ⟨(h.moved plan hplan hstaged move hmove).1, ?_⟩ },
    { Later.refl tables with nodes := fun node hnode _ => ?_ }, fun _ old hmem node hnode hid => ?_⟩
  · obtain ⟨old, hmem, hretired⟩ := hold node hnode
    exact hretired.id ▸ h.issued old hmem
  · obtain ⟨old, hmem, hretired⟩ := hold node hnode
    rw [hretired.addresses] at hhost
    exact hretired.id ▸ h.held old hmem (hretired.active hactive) host hhost
  · intro node hnode hid
    obtain ⟨old, hmem, hretired⟩ := hold node hnode
    rw [hretired.addresses]
    exact (h.moved plan hplan hstaged move hmove).2 old hmem (hretired.id.symm.trans hid)
  · obtain ⟨old, hmem, hretired⟩ := hold node hnode
    exact ⟨old, hmem, hretired.id.symm, hretired.active⟩
  · obtain ⟨from', hfrom, hretired⟩ := hold node hnode
    rw [h.node_eq hmem hfrom (hid.trans hretired.id), hretired.addresses]

theorem mem_map_retired {change : Node → Node} (hretired : ∀ node, Retired node (change node)) :
    ∀ node ∈ nodes.map change, ∃ old ∈ nodes, Retired old node := by
  intro node hnode
  obtain ⟨old, hold, rfl⟩ := List.mem_map.mp hnode
  exact ⟨old, hold, hretired old⟩

theorem retire_advance {change : Node → Node}
    (h : Owned tables) (hretired : ∀ node, Retired node (change node)) :
    Advance waits tables { tables with nodes := tables.nodes.map change } := by
  refine advance_nodes h ?_ (mem_map_retired hretired)
  rw [List.map_map, show Node.id ∘ change = Node.id from funext fun node => (hretired node).id]

/-- Leases that change for nobody who is active. -/
theorem Owned.leases (h : Owned tables) {leases : Table Host Lease}
    (hleased : ∀ host lease id, leases.lookup host = some lease → lease.nodeId = some id →
      id ∈ tables.issued)
    (hheld : ∀ node ∈ tables.nodes, node.active → ∀ host, Holds tables.leases node.id host →
      Holds leases node.id host) :
    Owned { tables with leases := leases } :=
  { h with
    leased := hleased
    held := fun node hnode hactive host hhost =>
      hheld node hnode hactive host (h.held node hnode hactive host hhost) }

/-! ## Release stamps -/

variable {lease : Lease} {leases : Table Host Lease} {host : Host} {time : Int} {seen : StampViews}

/-- What an update may do to a row: nothing, or what it does to rows it matches. -/
theorem updateLeases_lookup {set : Lease → Option Lease} {found : Table Host Lease}
    (h : (updateLeases set found leases).lookup host = some lease) :
    ∃ old, leases.lookup host = some old ∧ (lease = old ∨
      (∃ row, found.lookup host = some row ∧ (set row).isSome) ∧ set old = some lease) := by
  rw [updateLeases, Table.lookup_mapEntries] at h
  obtain ⟨old, hold, rfl⟩ := Option.map_eq_some_iff.mp h
  refine ⟨old, hold, ?_⟩
  split_ifs with hmatched
  · cases hset : set old with
    | none => exact .inl rfl
    | some new =>
      obtain ⟨_, hfound⟩ := Option.isSome_iff_exists.mp hmatched
      obtain ⟨row, hrow, hrowSet⟩ := Option.bind_eq_some_iff.mp hfound
      exact .inr ⟨⟨row, hrow, Option.isSome_of_mem hrowSet⟩, rfl⟩
  · exact .inl rfl

/-- All that stamping can do to a lease: leave it, stamp it with the removal of its device, or stamp
it with the time, where the row the statement found was orphaned and the lease as it is now names no
device that the statement saw. -/
theorem stampReleases_lookup (h : (stampReleases seen time leases).lookup host = some lease) :
    ∃ old, leases.lookup host = some old ∧ (lease = old ∨
      (∃ node ∈ seen.removed.nodes, old.nodeId = some node.id ∧ node.active = false ∧
        lease = ⟨old.nodeId, node.deletedAt.or node.revokedAt⟩) ∨
      (∃ row, seen.orphaned.leases.lookup host = some row ∧
        row.orphaned seen.orphaned.nodes) ∧
        (∀ node ∈ seen.orphaned.nodes, old.nodeId ≠ some node.id) ∧
        lease = ⟨old.nodeId, some time⟩) := by
  obtain ⟨mid, hmid, hsecond⟩ := updateLeases_lookup h
  obtain ⟨old, hold, hfirst⟩ := updateLeases_lookup hmid
  refine ⟨old, hold, ?_⟩
  have hremoved : ∀ new, old.stampRemoved seen.removed.nodes = some new →
      ∃ node ∈ seen.removed.nodes, old.nodeId = some node.id ∧ node.active = false ∧
        new = ⟨old.nodeId, node.deletedAt.or node.revokedAt⟩ := by
    intro new hnew
    obtain ⟨-, hnew⟩ := Option.ite_none_left_eq_some.mp hnew
    obtain ⟨node, hnode, rfl⟩ := Option.map_eq_some_iff.mp hnew
    obtain ⟨hfind, hinactive⟩ := Option.filter_eq_some_iff.mp hnode
    obtain ⟨hid, -⟩ := List.find?_eq_some_iff_append.mp hfind
    exact ⟨node, List.mem_of_find?_eq_some hfind, by simpa using hid, by simpa using hinactive, rfl⟩
  rcases hsecond with rfl | ⟨⟨row, hrow, hrowSet⟩, hset⟩
  · exact hfirst.imp_right fun hfirst => .inl (hremoved _ hfirst.2)
  · have hsame : mid.nodeId = old.nodeId := by
      rcases hfirst with rfl | hfirst
      · rfl
      · obtain ⟨node, -, -, -, rfl⟩ := hremoved mid hfirst.2
        rfl
    obtain ⟨horphaned, heq⟩ := Option.ite_none_right_eq_some.mp hset
    have hfound : row.orphaned seen.orphaned.nodes := by
      by_contra hnot
      simp [Lease.stampOrphaned, hnot] at hrowSet
    refine .inr (.inr ⟨⟨row, hrow, hfound⟩, fun node hnode hid => ?_, ?_⟩)
    · rw [← hsame] at hid
      simp [Lease.orphaned, hid] at horphaned
      exact horphaned.2 node hnode rfl
    · rw [← Option.some.inj heq, hsame]

theorem stampReleases_isSome (seen : StampViews) (time : Int)
    (h : leases.lookup host = some lease) :
    ∃ stamped, (stampReleases seen time leases).lookup host = some stamped := by
  simp [stampReleases, updateLeases, Table.lookup_mapEntries, h]

theorem stampReleases_leased (h : Owned tables) (host : Host) (lease : Lease) (id : Uuid)
    (hlease : (stampReleases seen time tables.leases).lookup host = some lease)
    (hid : lease.nodeId = some id) : id ∈ tables.issued := by
  obtain ⟨old, hold, hcases⟩ := stampReleases_lookup hlease
  refine h.leased host old id hold ?_
  rcases hcases with rfl | ⟨_, -, -, -, rfl⟩ | ⟨-, -, rfl⟩
  · exact hid
  · exact hid
  · exact hid

/-- The leases an update found orphaned name the same devices still. -/
def StampViews.Undisturbed (seen : StampViews) (tables : Tables) : Prop :=
  ∀ entry ∈ seen.orphaned.leases.entries, entry.2.orphaned seen.orphaned.nodes →
    ∀ lease ∈ tables.leases.lookup entry.1, lease.nodeId = entry.2.nodeId

/-- What holds of the tables that stamps were made from. -/
structure StampViews.Before (seen : StampViews) (tables : Tables) : Prop where
  removed : Owned seen.removed ∧ Later seen.removed tables
  orphaned : Owned seen.orphaned ∧ Later seen.orphaned tables
  undisturbed : seen.Undisturbed tables

/-- The leases of active devices are not stamped, also where the rows were read a while ago. -/
theorem stampReleases_holds (hseen : seen.Before tables) {node : Node}
    (hnode : node ∈ tables.nodes) (hactive : node.active)
    (hheld : Holds tables.leases node.id host) :
    Holds (stampReleases seen time tables.leases) node.id host := by
  obtain ⟨lease, hlease⟩ := stampReleases_isSome seen time hheld
  obtain ⟨old, hold, hcases⟩ := stampReleases_lookup hlease
  cases hheld.symm.trans hold
  rcases hcases with rfl | ⟨other, hother, hid, hremoved, -⟩ | ⟨⟨row, hrow, horphaned⟩, hgone, -⟩
  · exact hlease
  · -- a device that was removed is not active again
    obtain ⟨hbefore, hlater⟩ := hseen.removed
    have hid := Option.some.inj hid
    obtain ⟨was, hwas, hwasId, hwasActive⟩ :=
      hlater.nodes node hnode (hid ▸ hbefore.issued other hother)
    rw [hbefore.node_eq hother hwas (hid.symm.trans hwasId.symm), hwasActive hactive] at hremoved
    cases hremoved
  · -- the row was there with the same device, whose row was there too
    obtain ⟨hbefore, hlater⟩ := hseen.orphaned
    have hsame := hseen.undisturbed ⟨host, row⟩ (Table.lookup_eq_some_iff.mp hrow) horphaned _ hheld
    obtain ⟨was, hwas, hwasId, -⟩ :=
      hlater.nodes node hnode (hbefore.leased host row _ hrow hsame.symm)
    exact absurd (congrArg some hwasId.symm) (hgone was hwas)

theorem Owned.stamped (h : Owned tables) (hseen : seen.Before tables) (time : Int) :
    Owned { tables with leases := stampReleases seen time tables.leases } :=
  h.leases (stampReleases_leased h) fun _ hnode hactive _ hheld =>
    stampReleases_holds hseen hnode hactive hheld

variable {id : Uuid}

/-- An unreleased lease survives the taking of a free address. -/
theorem Holds.insert {taken : Host}
    {host : Host} (h : Holds leases id host) (hfree : Free leases taken)
    (lease : Lease) : Holds (leases.insert taken lease) id host := by
  have hne : host ≠ taken := by
    rintro rfl
    have hreleased := hfree _ h
    cases hreleased
  unfold Holds
  rw [Table.lookup_insert_if, if_neg hne]
  exact h

theorem insert_leased {taken : Host}
    (hleased : ∀ host lease id, leases.lookup host = some lease → lease.nodeId = some id →
      id ∈ tables.issued)
    {owner : Uuid} {issued : List Uuid} (howner : owner ∈ issued)
    (hgrown : ∀ id ∈ tables.issued, id ∈ issued) {time : Option Int} :
    ∀ host lease id, (leases.insert taken ⟨some owner, time⟩).lookup host = some lease →
      lease.nodeId = some id → id ∈ issued := by
  intro host lease id hlease hid
  rw [Table.lookup_insert_if] at hlease
  split_ifs at hlease
  · cases hlease
    exact Option.some.inj hid ▸ howner
  · exact hgrown id (hleased host lease id hlease hid)

/-! ## Enrolment and reservations -/

variable {tables' : Tables}

/-- An enrolment adds a device under a fresh id, with a lease that nobody holds. -/
theorem enrol_advance {enrolment : Enrolment} {views : EnrolmentViews} (h : Owned tables)
    (hseen : views.stamped.Before tables)
    (henrol : enrol enrolment views tables = .ok tables') : Advance true tables tables' := by
  obtain ⟨host, offset, hfree, -, hfresh, rfl⟩ := enrol_eq_ok henrol
  have hstamp := h.stamped hseen views.now
  refine ⟨{ h with
    ids := ?_
    issued := fun node hnode => ?_
    leased := insert_leased hstamp.leased List.mem_cons_self fun id hid =>
      List.mem_cons_of_mem _ hid
    held := fun node hnode hactive address haddress => ?_
    moved := fun plan hplan hstaged move hmove => ?_
    book := h.book.grow enrolment.id },
    { Later.refl tables with
      issued := fun id hid => List.mem_cons_of_mem _ hid
      nodes := fun node hnode hid => ?_ }, fun hwaits => absurd hwaits (by decide)⟩
  · rw [List.map_append, List.nodup_append]
    refine ⟨h.ids, List.nodup_singleton _, ?_⟩
    rintro id hid other hother rfl
    obtain ⟨node, hnode, rfl⟩ := List.mem_map.mp hid
    have heq : node.id = enrolment.id := List.mem_singleton.mp hother
    exact hfresh (heq ▸ h.issued node hnode)
  · rcases List.mem_append.mp hnode with hnode | hnode
    · exact List.mem_cons_of_mem _ (h.issued node hnode)
    · cases List.mem_singleton.mp hnode
      exact List.mem_cons_self
  · rcases List.mem_append.mp hnode with hnode | hnode
    · exact (hstamp.held node hnode hactive address haddress).insert hfree _
    · cases List.mem_singleton.mp hnode
      have heq : address = host := by simpa [orgUlaAddress] using haddress
      unfold Holds
      rw [Table.lookup_insert_if, if_pos heq]
  · obtain ⟨hissued, haddresses⟩ := h.moved plan hplan hstaged move hmove
    refine ⟨List.mem_cons_of_mem _ hissued, fun node hnode hid => ?_⟩
    rcases List.mem_append.mp hnode with hnode | hnode
    · exact haddresses node hnode hid
    · cases List.mem_singleton.mp hnode
      have heq : enrolment.id = move.nodeId := hid
      exact absurd (heq ▸ hissued) hfresh
  · rcases List.mem_append.mp hnode with hnode | hnode
    · exact ⟨node, hnode, rfl, fun hactive => hactive⟩
    · cases List.mem_singleton.mp hnode
      exact absurd hid hfresh

theorem reserve_advance {input : ReserveInput} {views : ReserveViews} (h : Owned tables)
    (hseen : views.stamped.Before tables)
    (hreserve : reserve id input views tables = .ok tables') : Advance false tables tables' := by
  rcases reserve_eq_ok hreserve with rfl | ⟨reservation, -, rfl⟩
  · exact Advance.refl h
  · exact ⟨{ h.stamped hseen views.stamped.removed.now with },
      { Later.refl tables with }, fun _ => Still.refl h⟩

/-! ## Staging -/

variable {moves : List Move} {leases' : Table Host Lease} {nodes' : List Node}

/-- Staging takes free addresses, one for each device that moves, and leaves the other leases
alone. -/
theorem stageMoves_lookup (h : stageMoves time moves leases nodes = .ok (leases', nodes'))
    (host : Host) :
    (leases'.lookup host = leases.lookup host ∧ ∀ move ∈ moves, move.newV4 ≠ some host) ∨
      Free leases host ∧ ∃ move ∈ moves, move.newV4 = some host ∧ Holds leases' move.nodeId host ∧
        ∀ other ∈ moves, other.newV4 = some host → other = move := by
  induction moves generalizing leases nodes with
  | nil =>
    obtain ⟨rfl, -⟩ := Prod.mk.inj (Except.ok.inj h)
    exact .inl ⟨rfl, nofun⟩
  | cons first moves ih =>
    unfold stageMoves at h
    split at h
    · cases h
    · next taken htaken =>
      split at h
      · cases h
      · next leases₁ htake =>
        obtain ⟨hmay, rfl⟩ := upsertLease_eq_some htake
        have hrest := ih h
        unfold Free at hrest ⊢
        rw [Table.lookup_insert_if] at hrest
        by_cases heq : host = taken
        · -- what was just taken is not free for the devices that follow
          subst heq
          rw [if_pos rfl] at hrest
          rcases hrest with ⟨hlookup, hothers⟩ | ⟨hfree, -⟩
          · refine .inr ⟨fun lease hlease => ?_, first, List.mem_cons_self, htaken, hlookup, ?_⟩
            · obtain ⟨released, hreleased, -⟩ := (Option.any_eq_true _ _).mp (hmay lease hlease)
              rw [hreleased]
              rfl
            · intro other hother hnew
              exact (List.mem_cons.mp hother).resolve_right fun hin => hothers other hin hnew
          · cases hfree _ rfl
        · rw [if_neg heq] at hrest
          have hfirst : first.newV4 ≠ some host := by
            rw [htaken]
            exact fun hsame => heq (Option.some.inj hsame).symm
          rcases hrest with ⟨hlookup, hothers⟩ | ⟨hfree, move, hmove, hrest⟩
          · exact .inl ⟨hlookup, List.forall_mem_cons.mpr ⟨hfirst, hothers⟩⟩
          · exact .inr ⟨hfree, move, List.mem_cons_of_mem _ hmove, hrest.1, hrest.2.1,
              List.forall_mem_cons.mpr ⟨fun hnew => absurd hnew hfirst, hrest.2.2⟩⟩

theorem stageMoves_holds (h : stageMoves time moves leases nodes = .ok (leases', nodes'))
    (hheld : Holds leases id host) : Holds leases' id host := by
  rcases stageMoves_lookup h host with ⟨hlookup, -⟩ | ⟨hfree, -⟩
  · exact hlookup.trans hheld
  · cases hfree _ hheld

/-- Staging gives every device that moves the lease of its new address, which was free. -/
theorem stageMoves_moved (h : stageMoves time moves leases nodes = .ok (leases', nodes'))
    {move : Move} (hmove : move ∈ moves) (hnew : move.newV4 = some host) :
    Holds leases' move.nodeId host ∧ Free leases host := by
  rcases stageMoves_lookup h host with ⟨-, hothers⟩ | ⟨hfree, sole, -, -, hholds, hsole⟩
  · exact absurd hnew (hothers move hmove)
  · exact ⟨hsole move hmove hnew ▸ hholds, hfree⟩

variable {devices : List (Node × Option Host)} {target : Pool}

theorem moves_of_mem (h : List.Forall₂ (Moves target) devices moves) {move : Move}
    (hmove : move ∈ moves) : ∃ device ∈ devices, Moves target device move := by
  induction h with
  | nil => cases hmove
  | cons hfirst _ ih =>
    rcases List.mem_cons.mp hmove with rfl | hmove
    · exact ⟨_, List.mem_cons_self, hfirst⟩
    · obtain ⟨device, hdevice, hmoves⟩ := ih hmove
      exact ⟨device, List.mem_cons_of_mem _ hdevice, hmoves⟩

theorem moves_ids (h : List.Forall₂ (Moves target) devices moves) :
    moves.map Move.nodeId = devices.map fun device => device.1.id := by
  induction h with
  | nil => rfl
  | cons hfirst _ ih => rw [List.map_cons, List.map_cons, hfirst.nodeId, ih]

theorem Moves.newV4_of_mem {device : Node × Option Host} {move : Move}
    (h : Moves target device move) (hhost : .v4 host ∈ move.newAddresses) :
    move.newV4 = some host := by
  obtain ⟨new, digest, offset, hnew, -⟩ := h.new
  rw [hnew] at hhost
  have heq : host = new := by simpa [orgUlaAddress] using hhost
  rw [heq, Move.newV4, hnew]
  rfl

theorem loadNodes_ids (h : (tables.nodes.map Node.id).Nodup) :
    ((loadNodes tables).map Node.id).Nodup :=
  ((List.perm_insertionSort _ tables.nodes).map Node.id).nodup_iff.mpr h

variable (addresses : Move → List IpAddr)

theorem map_readdress_ids (moves : List Move) (nodes : List Node) :
    (nodes.map (readdress addresses moves)).map Node.id = nodes.map Node.id := by
  rw [List.map_map]
  exact List.map_congr_left fun node _ => readdress_id addresses moves node

/-- A device that changes its addresses is the device it was. -/
theorem Later.readdress (moves : List Move) (hnow : tables.now ≤ tables'.now)
    (hissued : ∀ id ∈ tables.issued, id ∈ tables'.issued)
    (hnodes : tables'.nodes = tables.nodes.map (readdress addresses moves))
    (hplans : ∀ plan ∈ tables.plans, ∃ row ∈ tables'.plans, row.id = plan.id ∧
      row.moves = plan.moves) :
    Later tables tables' := by
  refine ⟨hnow, hissued, fun node hnode _ => ?_, hplans⟩
  rw [hnodes] at hnode
  obtain ⟨old, hold, rfl⟩ := List.mem_map.mp hnode
  refine ⟨old, hold, (readdress_id addresses moves old).symm, fun hactive => ?_⟩
  rwa [readdress_active] at hactive

/-- A staged device holds its new address, and still its old ones. -/
theorem stageMoves_held (hapart : (moves.map Move.nodeId).Nodup)
    (hmoves : List.Forall₂ (Moves target) devices moves)
    (hstage : stageMoves time moves leases nodes = .ok (leases', nodes'))
    (hcurrent : ∀ move ∈ moves, ∀ old ∈ nodes, old.id = move.nodeId →
      move.oldAddresses = old.addresses)
    (hheld : ∀ node ∈ nodes, node.active → ∀ host, .v4 host ∈ node.addresses →
      Holds leases node.id host) :
    ∀ node ∈ nodes.map (readdress (fun move => move.newAddresses ++ move.oldAddresses) moves),
      node.active → ∀ host, .v4 host ∈ node.addresses → Holds leases' node.id host := by
  intro node hnode hactive host hhost
  obtain ⟨old, hold, rfl⟩ := List.mem_map.mp hnode
  rw [readdress_active] at hactive
  rw [readdress_id]
  have hkept : .v4 host ∈ old.addresses → Holds leases' old.id host := fun hmem =>
    stageMoves_holds hstage (hheld old hold hactive host hmem)
  rcases readdress_cases (fun move => move.newAddresses ++ move.oldAddresses) hapart old with
    ⟨move, hmove, hid, haddresses⟩ | ⟨-, hsame⟩
  · rw [haddresses] at hhost
    rcases List.mem_append.mp hhost with hnew | holds
    · obtain ⟨device, -, hmoves⟩ := moves_of_mem hmoves hmove
      rw [hid]
      exact (stageMoves_moved hstage hmove (hmoves.newV4_of_mem hnew)).1
    · exact hkept (hcurrent move hmove old hold hid ▸ holds)
  · exact hkept (hsame ▸ hhost)

/-- Staging a plan: every device that moves has both addresses. -/
theorem create_advance {input : PlanInput} {acl dns : String} {views : CreateViews}
    (h : Owned tables) (hseen : views.stamped.Before tables) (hlisted : Owned views.planned.listed)
    (hlistedLater : Later views.planned.listed tables)
    (hstill : Still views.planned.listed tables)
    (hcreate : create id input acl dns views tables = .ok tables') :
    Advance true tables tables' := by
  obtain ⟨hfresh, ⟨planned, wanted, leases, nodes, windowEndsAt, -, hwanted, -, -, hmoves, hstage,
    hunstaged, rfl⟩, -⟩ := create_eq_ok hcreate
  have hsound := wanted_sound hwanted
  have hstamp := h.stamped hseen views.summarised.now
  -- one move a device, so that staging reads back move by move
  have hapart : (planned.moves.map Move.nodeId).Nodup := by
    rw [moves_ids hmoves]
    exact hsound.apart (loadNodes_ids hlisted.ids)
  have hdevice : ∀ move ∈ planned.moves, ∃ device ∈ views.planned.listed.nodes,
      device.id = move.nodeId ∧ device.addresses = move.oldAddresses := by
    intro move hmove
    obtain ⟨device, hmem, hmoves⟩ := moves_of_mem hmoves hmove
    exact ⟨device.1, mem_loadNodes.mp (hsound.devices device hmem).1, hmoves.nodeId.symm,
      hmoves.old.symm⟩
  have hissued : ∀ move ∈ planned.moves, move.nodeId ∈ tables.issued := by
    intro move hmove
    obtain ⟨device, hmem, hid, -⟩ := hdevice move hmove
    exact hid ▸ hlistedLater.issued _ (hlisted.issued device hmem)
  have hnodes := stageMoves_nodes hstage
  rw [foldl_setAddresses (fun move => move.newAddresses ++ move.oldAddresses) hapart] at hnodes
  subst hnodes
  have hmoving : (if planned.moves.isEmpty then PlanState.completed else PlanState.staged) =
      .staged → planned.moves ≠ [] := by
    rintro hstaged hnone
    rw [hnone] at hstaged
    cases hstaged
  have hheld := stageMoves_held hapart hmoves hstage (fun move hmove old hold hid => ?_) hstamp.held
  refine ⟨⟨?_, ?_, ?_, hheld, ?_, h.book.add hfresh hapart fun hstaged =>
    hunstaged (hmoving hstaged)⟩,
    Later.readdress _ planned.moves le_rfl (fun _ hid => List.mem_cons_of_mem _ hid) rfl
      fun plan hplan => ⟨plan, List.mem_append_left _ hplan, rfl, rfl⟩,
    fun hwaits => absurd hwaits (by decide)⟩
  · rw [map_readdress_ids]
    exact h.ids
  · intro node hnode
    obtain ⟨old, hold, rfl⟩ := List.mem_map.mp hnode
    rw [readdress_id]
    exact List.mem_cons_of_mem _ (h.issued old hold)
  · intro host lease owner hlease howner
    refine List.mem_cons_of_mem _ ?_
    rcases stageMoves_lookup hstage host with ⟨hlookup, -⟩ | ⟨-, move, hmove, -, hholds, -⟩
    · exact hstamp.leased host lease owner (hlookup.symm.trans hlease) howner
    · cases hholds.symm.trans hlease
      exact Option.some.inj howner ▸ hissued move hmove
  · -- beside an older staged plan, this one moves nothing
    intro plan hplan hstaged move hmove
    rcases List.mem_append.mp hplan with hplan | hplan
    · obtain ⟨hmoveIssued, haddresses⟩ := h.moved plan hplan hstaged move hmove
      refine ⟨List.mem_cons_of_mem _ hmoveIssued, fun node hnode hid => ?_⟩
      obtain ⟨old, hold, rfl⟩ := List.mem_map.mp hnode
      by_cases hnone : planned.moves = []
      · rw [readdress_id] at hid
        rw [readdress_other _ fun other hother => absurd hother (by simp [hnone])]
        exact haddresses old hold hid
      · exact absurd hstaged (hunstaged hnone plan hplan)
    · cases List.mem_singleton.mp hplan
      refine ⟨List.mem_cons_of_mem _ (hissued move hmove), fun node hnode hid => ?_⟩
      obtain ⟨old, hold, rfl⟩ := List.mem_map.mp hnode
      rw [readdress_id] at hid
      exact readdress_move _ hapart hmove hid
  · -- the plan's old addresses are those the device has now
    obtain ⟨device, hdevice, hdeviceId, haddresses⟩ := hdevice move hmove
    rw [← haddresses, hstill device hdevice old hold (hdeviceId.trans hid.symm)]

/-! ## Completion and rollback -/

variable {how : Finish}

/-- The addresses that devices give up. -/
def Finish.drops (how : Finish) (moves : List Move) : List (Uuid × Host) :=
  moves.flatMap fun move => (how.dropped move).map (Prod.mk move.nodeId)

/-- Finishing releases the leases that devices have of addresses they give up, and no others. -/
theorem foldl_dropLeases_lookup :
    (moves.foldl (dropLeases how time) leases).lookup host = (leases.lookup host).map fun lease =>
      if ∃ drop ∈ how.drops moves, lease = ⟨some drop.1, none⟩ ∧ host = drop.2 then
        ⟨lease.nodeId, some time⟩
      else lease := by
  have hfold : moves.foldl (dropLeases how time) leases = (how.drops moves).foldl
      (fun leases drop => releaseLease leases drop.1 drop.2 time) leases := by
    simp only [Finish.drops, List.foldl_flatMap, List.foldl_map]
    rfl
  rw [hfold]
  clear hfold
  generalize how.drops moves = drops
  induction drops generalizing leases with
  | nil => simp
  | cons drop drops ih =>
    rw [List.foldl_cons, ih]
    unfold releaseLease
    by_cases hheld : leases.lookup drop.2 = some ⟨some drop.1, none⟩
    · rw [if_pos hheld, Table.lookup_insert_if]
      by_cases heq : host = drop.2
      · subst heq
        simp [hheld]
      · simp only [List.exists_mem_cons_iff, heq, and_false, false_or, if_false]
    · rw [if_neg hheld]
      cases hhost : leases.lookup host with
      | none => rfl
      | some lease =>
        have hnot : ¬(lease = ⟨some drop.1, none⟩ ∧ host = drop.2) := by
          rintro ⟨rfl, rfl⟩
          exact hheld hhost
        simp only [Option.map_some, List.exists_mem_cons_iff, hnot, false_or]

/-- Finishing takes no lease from another device, nor one of an address that is kept. -/
theorem foldl_dropLeases_holds (h : Holds leases id host)
    (hkept : ∀ move ∈ moves, move.nodeId = id → .v4 host ∈ (how.split move).1) :
    Holds (moves.foldl (dropLeases how time) leases) id host := by
  unfold Holds at h ⊢
  rw [foldl_dropLeases_lookup, h, Option.map_some, if_neg]
  rintro ⟨drop, hdrop, hlease, rfl⟩
  simp [Finish.drops, Finish.dropped, v4Host_eq_some] at hdrop
  obtain ⟨move, hmove, _, ⟨-, hnot⟩, rfl⟩ := hdrop
  exact hnot (hkept move hmove (Option.some.inj (Lease.mk.inj hlease).1).symm)

theorem foldl_dropLeases_leased
    (h : (moves.foldl (dropLeases how time) leases).lookup host = some lease) :
    ∃ old, leases.lookup host = some old ∧ old.nodeId = lease.nodeId := by
  rw [foldl_dropLeases_lookup] at h
  obtain ⟨old, hold, rfl⟩ := Option.map_eq_some_iff.mp h
  refine ⟨old, hold, ?_⟩
  split_ifs
  · rfl
  · rfl

theorem Finish.split_subset (how : Finish) (move : Move) :
    ∀ address ∈ (how.split move).1, address ∈ move.newAddresses ++ move.oldAddresses := by
  intro address haddress
  cases how with
  | complete => exact List.mem_append_left _ haddress
  | rollback => exact List.mem_append_right _ haddress

/-- What a finish makes of the rows of plans. -/
def Plan.close (plan : Plan) (state : PlanState) (row : Plan) : Plan :=
  if row.id = plan.id && row.state = .staged && row.revision = plan.revision then
    { row with state := state, revision := row.revision + 1 }
  else row

/-- Only the state and the revision of a row change. -/
theorem Plan.close_same (plan : Plan) (state : PlanState) (row : Plan) :
    (plan.close state row).id = row.id ∧ (plan.close state row).moves = row.moves ∧
      (plan.close state row).previousPool = row.previousPool ∧
      (plan.close state row).targetPool = row.targetPool := by
  unfold Plan.close
  split_ifs
  · exact ⟨rfl, rfl, rfl, rfl⟩
  · exact ⟨rfl, rfl, rfl, rfl⟩

/-- The row of the plan that a finish writes is the plan it read. -/
theorem Finished.row {planId : Uuid} {views : FinishViews}
    (hfinished : Finished planId how views tables tables') (h : Owned tables)
    (hlater : Later views.planned tables) :
    ∃ plan ∈ views.planned.plans, plan.id = planId ∧ ∃ row ∈ tables.plans, row.id = plan.id ∧
      row.moves = plan.moves ∧ row.state = .staged ∧
      (how = .rollback → plan.previousPool ≠ plan.targetPool →
        strandedNode plan (loadNodes views.listed) = none) ∧
      ∃ state, (plan.close state row).state ≠ .staged ∧
        (∀ other, (plan.close state other).state = .staged → other.state = .staged) ∧
        tables' = { tables with
          leases := row.moves.foldl (dropLeases how views.planned.now) tables.leases
          nodes := tables.nodes.map (readdress (fun move => (how.split move).1) row.moves)
          pool := if how = .rollback ∧ plan.previousPool ≠ plan.targetPool then plan.previousPool
            else tables.pool
          plans := tables.plans.map (plan.close state) } := by
  obtain ⟨plan, hplan, hplanId, ⟨row, hrow, hid, hstaged, hrevision⟩, hstranded, state, hstate,
    rfl⟩ := hfinished.plan
  obtain ⟨current, hcurrent, hcurrentId, hmoves⟩ := hlater.plans plan hplan
  obtain rfl := h.book.plan_eq hrow hcurrent (hid.trans hcurrentId.symm)
  refine ⟨plan, hplan, hplanId, row, hrow, hid, hmoves, hstaged, hstranded, state, ?_,
    fun other hopen => ?_, ?_⟩
  · simpa [Plan.close, hid, hstaged, hrevision] using hstate
  · unfold Plan.close at hopen
    split_ifs at hopen
    · exact absurd hopen hstate
    · exact hopen
  · rw [← hmoves, foldl_setAddresses (fun move => (how.split move).1) (h.book.apart row hrow)]
    rfl

/-- A plan that ends drops, of each move, the addresses that the device gives up. -/
theorem finish_advance {planId : Uuid} {views : FinishViews}
    (h : Owned tables) (hlater : Later views.planned tables)
    (hfinished : Finished planId how views tables tables') : Advance true tables tables' := by
  obtain ⟨plan, -, -, row, hrow, -, -, hstaged, -, state, hclosed, hopen, rfl⟩ :=
    hfinished.row h hlater
  have hapart := h.book.apart row hrow
  have hsame := plan.close_same state
  obtain ⟨hbook, hnone⟩ := h.book.close hrow hstaged (fun other => (hsame other).1)
    (fun other => (hsame other).2.1) hclosed hopen
  refine ⟨⟨?_, ?_, ?_, ?_, ?_, hbook⟩,
    Later.readdress _ row.moves le_rfl (fun _ hissued => hissued) rfl
      fun other hother => ⟨plan.close state other, List.mem_map_of_mem hother, (hsame other).1,
        (hsame other).2.1⟩,
    fun hwaits => absurd hwaits (by decide)⟩
  · rw [map_readdress_ids]
    exact h.ids
  · intro node hnode
    obtain ⟨old, hold, rfl⟩ := List.mem_map.mp hnode
    rw [readdress_id]
    exact h.issued old hold
  · intro host lease id hlease hid
    obtain ⟨old, hold, heq⟩ := foldl_dropLeases_leased hlease
    exact h.leased host old id hold (heq.trans hid)
  · intro node hnode hactive host hhost
    obtain ⟨old, hold, rfl⟩ := List.mem_map.mp hnode
    rw [readdress_active] at hactive
    rw [readdress_id]
    rcases readdress_cases (fun move => (how.split move).1) hapart old with
      ⟨move, hmove, hid, haddresses⟩ | ⟨hother, hsame⟩
    · -- what a device keeps it had, and its own move does not drop it
      rw [haddresses] at hhost
      refine foldl_dropLeases_holds (h.held old hold hactive host ?_) fun other hother heq => ?_
      · rw [(h.moved row hrow hstaged move hmove).2 old hold hid]
        exact how.split_subset move _ hhost
      · rwa [List.inj_on_of_nodup_map hapart hother hmove (heq.trans hid)]
    · rw [hsame] at hhost
      exact foldl_dropLeases_holds (h.held old hold hactive host hhost) fun move hmove heq =>
        absurd heq (hother move hmove)
  · exact fun other hother hstill => absurd hstill (hnone other hother)

/-! ## Every transaction -/

/-- What a transaction may rely on about the tables it has read. -/
def Seen (request : Request) (view now : Tables) : Prop :=
  Later view now ∧ (ipam.holds request → Still view now)

/-- What a transaction found is so still when it commits: the leases it found orphaned name the same
devices, and an enrolment has seen every reservation. -/
def Request.Undisturbed : Request → List Tables → Tables → Prop
  | .enrol _, [removed, orphaned, _, _, _, _, _, reservations], tables =>
    StampViews.Undisturbed ⟨removed, orphaned⟩ tables ∧
      ∀ reservation ∈ tables.reservations, reservation ∈ reservations.reservations
  | .reserve _ _, [_, removed, orphaned, _, _], tables =>
    StampViews.Undisturbed ⟨removed, orphaned⟩ tables
  | .create _ _ _ _, [_, removed, orphaned, _, _, _, _, _, _], tables =>
    StampViews.Undisturbed ⟨removed, orphaned⟩ tables
  | _, _, _ => True

theorem write_advance {request : Request} {views : List Tables} (h : Owned tables)
    (hviews : ∀ view ∈ views, Owned view ∧ Seen request view tables)
    (hmeets : request.Undisturbed views tables)
    (hwrite : request.write views tables = .ok tables') :
    Advance (ipam.waits request) tables tables' := by
  have hread : ∀ view ∈ views, Owned view ∧ Later view tables := fun view hview =>
    ⟨(hviews view hview).1, (hviews view hview).2.1⟩
  unfold Request.write at hwrite
  split at hwrite
  · exact enrol_advance h ⟨hread _ (by simp), hread _ (by simp), hmeets.1⟩ hwrite
  · next id input pooled removed orphaned reserved listed =>
    have hseen : StampViews.Before ⟨removed, orphaned⟩ tables :=
      ⟨hread _ (by simp), hread _ (by simp), hmeets⟩
    exact reserve_advance h hseen hwrite
  · obtain ⟨keep, rfl⟩ := release_eq_ok hwrite
    exact ⟨{ h with }, { Later.refl tables with }, fun _ => Still.refl h⟩
  · next id input acl dns summarised removed orphaned pooled listed reserved _ _ _ =>
    have hseen : StampViews.Before ⟨removed, orphaned⟩ tables :=
      ⟨hread _ (by simp), hread _ (by simp), hmeets⟩
    obtain ⟨hlisted, hlater, hstill⟩ := hviews listed (by simp)
    exact create_advance h hseen hlisted hlater (hstill rfl) hwrite
  · exact finish_advance h (hread _ List.mem_cons_self).2 (finish_eq_ok hwrite)
  · next due planned listed =>
    rcases completeDue_eq_ok hwrite with rfl | ⟨planId, hfinished⟩
    · exact Advance.refl h
    · exact finish_advance h (hread planned (by simp)).2 hfinished
  · obtain ⟨change, hretired, rfl⟩ := revoke_eq_ok hwrite
    exact retire_advance h hretired
  · obtain ⟨change, hretired, rfl⟩ := tombstone_eq_ok hwrite
    exact retire_advance h hretired
  · cases hwrite
    exact advance_nodes h (List.filter_sublist.map _) fun node hnode =>
      ⟨node, (List.mem_filter.mp hnode).1, Retired.refl node⟩
  · cases hwrite
    refine ⟨{ h with }, { Later.refl tables with clock := ?_ }, fun _ => Still.refl h⟩
    exact Int.le_add_of_nonneg_right (Int.natCast_nonneg _)
  · cases hwrite

theorem write_eq_ok {request : Request} {views : List Tables}
    (h : ipam.write request views tables = some tables') :
    request.write views tables = .ok tables' := by
  change (request.write views tables).toOption = some tables' at h
  cases hwrite : request.write views tables with
  | error e => rw [hwrite] at h; cases h
  | ok written =>
    rw [hwrite] at h
    rw [Option.some.inj h]

theorem owned_keeps : Protocol.Keeps ipam Request.Undisturbed Owned Seen where
  now := fun h => ⟨Later.refl _, fun _ => Still.refl h⟩
  others := by
    intro request other views view s s' hlock h hviews hmeets hwrite hview hseen
    have hadvance := write_advance h hviews hmeets (write_eq_ok hwrite)
    refine ⟨hseen.1.trans hadvance.later, fun hholds => ?_⟩
    exact Still.trans hview hseen.1 (hseen.2 hholds) hadvance.later (hadvance.still (hlock hholds))
  write := fun h hviews hmeets hwrite => (write_advance h hviews hmeets (write_eq_ok hwrite)).owned

theorem StampViews.undisturbed_self (removed tables : Tables) :
    StampViews.Undisturbed ⟨removed, tables⟩ tables := by
  intro entry hentry _ lease hlease
  have hsame := Table.lookup_eq_some_iff.mpr hentry
  cases hsame.symm.trans hlease
  rfl

/-- A transaction that runs alone is not disturbed. -/
theorem Request.undisturbed_serial (request : Request) (tables : Tables) :
    request.Undisturbed (List.replicate (ipam.reads request) tables) tables := by
  cases request with
  | enrol enrolment => exact ⟨StampViews.undisturbed_self tables tables, fun _ h => h⟩
  | reserve id input | create id input acl dns => exact StampViews.undisturbed_self tables tables
  | _ => trivial

/-- An organisation before its first device. -/
def Tables.empty (now : Int) (digest : BitVec 56) (pool : Pool) : Tables :=
  { now := now, digest := digest, pool := pool }

theorem owned_empty (now : Int) (digest : BitVec 56) (pool : Pool) :
    Owned (Tables.empty now digest pool) where
  ids := List.nodup_nil
  issued := nofun
  leased := nofun
  held := nofun
  moved := nofun
  book := ⟨List.nodup_nil, nofun,
    nofun, nofun⟩

/-! ## Address ownership -/

/-- A lease was released at a time: the row records it, or it is the deletion or revocation of the
device it names. -/
def ReleasedAt (nodes : List Node) (lease : Lease) (released : Int) : Prop :=
  lease.releasedAt = some released ∨
    ∃ node ∈ nodes, lease.nodeId = some node.id ∧ node.active = false ∧
      node.deletedAt.or node.revokedAt = some released

/-- A release stamped a grace period ago is not a stamp of this moment. -/
theorem stampReleases_releasedAt {stamped : Lease} {released : Int}
    (hlease : leases.lookup host = some lease)
    (hstamped : (stampReleases seen time leases).lookup host = some stamped)
    (hreleased : stamped.releasedAt = some released)
    (hgrace : released ≤ time - ADDRESS_REUSE_GRACE_SECS) :
    ReleasedAt seen.removed.nodes lease released := by
  obtain ⟨old, hold, hcases⟩ := stampReleases_lookup hstamped
  cases hlease.symm.trans hold
  rcases hcases with rfl | ⟨node, hnode, hid, hremoved, rfl⟩ | ⟨-, -, rfl⟩
  · exact .inl hreleased
  · exact .inr ⟨node, hnode, hid, hremoved, hreleased⟩
  · cases hreleased
    unfold ADDRESS_REUSE_GRACE_SECS at hgrace
    omega

instance (request : Request) (views : List Tables) (tables : Tables) :
    Decidable (request.Undisturbed views tables) := by
  unfold Request.Undisturbed StampViews.Undisturbed
  split
  all_goals infer_instance

def officePool : Pool := ⟨0x64400000, 24, by decide, by decide, by decide, by decide⟩

/-- The statements of a transaction that runs alone. -/
def alone (request : Request) : List (Statement Request) :=
  .start request :: List.replicate (ipam.reads request) (.read 0) ++ [.commit 0]

/-- `web` has the lowest host, which is reserved for its name, and is deleted and purged; nothing
stamps its lease. -/
def orphanedLease : List (Statement Request) :=
  alone (.enrol ⟨1, "web", "k0"⟩) ++
    alone (.reserve 20 { address := "100.64.0.1", boundName := some "web" }) ++
    alone (.tombstone 1) ++ alone (.tick (8 * 24 * 60 * 60)) ++ alone .purge

/-- A new `web` takes the lease over while the enrolment of `db` waits to stamp it. -/
def staleStamp : List (Statement Request) :=
  orphanedLease ++ .start (.enrol ⟨2, "web", "k1"⟩) :: List.replicate 8 (.read 0) ++
    [.start (.enrol ⟨3, "db", "k2"⟩), .read 1, .read 1, .commit 0] ++
    List.replicate 6 (.read 0) ++ [.commit 0]

/-- A reservation of the lowest host for `db` commits after the enrolment of `web` has read. -/
def enrolmentRace : List (Statement Request) :=
  .start (.enrol ⟨1, "web", "k1"⟩) :: List.replicate 8 (.read 0) ++
    [.start (.reserve 20 { address := "100.64.0.1", boundName := some "db" })] ++
    List.replicate 5 (.read 1) ++ [.commit 1, .commit 0]

/-- Two enrolments that both stamp the orphaned lease: the second finds it stamped. -/
def overlappingStamps : List (Statement Request) :=
  orphanedLease ++ [.start (.enrol ⟨2, "app", "k1"⟩), .start (.enrol ⟨3, "db", "k2"⟩)] ++
    List.replicate 8 (.read 0) ++ List.replicate 8 (.read 1) ++ [.commit 0, .commit 0]

end BlakTail.Ipam
