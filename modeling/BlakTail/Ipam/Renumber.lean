import BlakTail.Foundation.Interleaving
import BlakTail.Foundation.Lines
import BlakTail.Ipam.Store

/-!
# Renumbering

Devices move to new addresses in a window in which they have both: a plan is staged, and then
completed or rolled back.  Changing the pool moves the devices the target pool does not cover.
-/

namespace BlakTail.Ipam

open Foundation Addressing Control

def DEFAULT_WINDOW_SECS : Int := 24 * 60 * 60
def MIN_WINDOW_SECS : Int := 10 * 60
def MAX_WINDOW_SECS : Int := 30 * 24 * 60 * 60
def MAX_DEVICE_MOVES : Nat := 64

structure DeviceInput where
  nodeId : Uuid
  address : Option String := none

structure PlanInput where
  pool : Option String := none
  devices : List DeviceInput := []
  windowSeconds : Option Int := none
  reason : String := ""

def Move.retiring (move : Move) : List IpAddr :=
  move.oldAddresses.filter fun address => !move.newAddresses.contains address

def Move.newV4 (move : Move) : Option Host := move.newAddresses.findSome? v4Host

structure Blocker where
  kind : String
  detail : String

def window (input : Option Int) : Except ApiError Int :=
  let seconds := input.getD DEFAULT_WINDOW_SECS
  if MIN_WINDOW_SECS ≤ seconds ∧ seconds ≤ MAX_WINDOW_SECS then .ok seconds
  else
    .error (.badRequest ("the dual-address window must be between " ++
      toString (MIN_WINDOW_SECS / 60) ++ " minutes and " ++ toString (MAX_WINDOW_SECS / 86400) ++
      " days"))

/-! ## Literal references -/

/-- Characters an address or a prefix is written with. -/
def addressToken (c : Char) : Bool :=
  Text.isAsciiDigit c || ('a' ≤ c && c ≤ 'f') || ('A' ≤ c && c ≤ 'F') || c = '.' ||
    c = ':' || c = '/'

/-- The longest runs of such characters, of three and more. -/
def addressTokens (text : String) : List String :=
  let blanked := text.toList.map fun c => if addressToken c then c else ' '
  (((Text.words (String.ofList blanked)).filter fun token => 3 ≤ Text.byteLen token).insertionSort
    (· ≤ ·)).dedup

/-- A host mention, or a prefix that covers the old address but not its replacement. -/
def mentions (token : String) (old : IpAddr) (replacement : Option IpAddr) : Bool :=
  match Text.splitOnce '/' token with
  | none => IpAddr.parse token = some old
  | some _ =>
    match parseCidr token with
    | none => false
    | some (network, length) =>
      let host := width network.isIpv4
      let covers := fun ip : IpAddr => cidrsOverlap token (cidrText ip host)
      if length = host then network = old else covers old && !replacement.any covers

def literalReferences (source text : String) (moves : List Move) : List Blocker :=
  moves.flatMap fun move => move.retiring.flatMap fun old =>
    let replacement := move.newAddresses.find? fun ip => ip.isIpv4 = old.isIpv4
    ((addressTokens text).filter fun token => mentions token old replacement).map fun token =>
      ⟨source, source ++ " names " ++ token ++ ", which covers " ++ move.name ++
        "'s current address " ++ old.toText ++ "; edit it before renumbering"⟩

/-! ## Planning -/

structure PlanViews where
  pooled : Tables
  listed : Tables
  reserved : Tables
  blockedNodes : Tables
  blockedLeases : Tables
  blockedReservations : Tables

structure Planned where
  current : Pool
  target : Pool
  windowSeconds : Int
  moves : List Move
  blockers : List Blocker

/-- The devices to move with the addresses asked for, and the reservations outside the target. -/
structure Wanted where
  target : Pool
  devices : List (Node × Option Host)
  blockers : List Blocker

def wantedPool (cidr : String) (current : Pool) (nodes : List Node)
    (reservations : List Reservation) : Except ApiError Wanted :=
  match Pool.parse cidr with
  | .error message => .error (.badRequest message)
  | .ok target =>
    if target = current then .error (.badRequest ("the device pool is already " ++ target.cidr))
    else
      .ok
        { target := target
          devices := (nodes.filter fun node => node.active &&
            node.addresses.any fun address => address.isIpv4 && !target.contains address).map
              fun node => (node, none)
          blockers := (reservations.filter fun reservation =>
            !target.containsIp reservation.host).map fun reservation =>
              ⟨"reservation", "reservation " ++ bare reservation.host ++ " is outside " ++
                target.cidr ++ "; release it first"⟩ }

def requestedAddress (current : Pool) : Option String → Except ApiError (Option Host)
  | none => .ok none
  | some value => (canonicalPoolAddress value current).map some

def wantedDevices (current : Pool) (nodes : List Node) :
    List Uuid → List DeviceInput → Except ApiError (List (Node × Option Host))
  | _, [] => .ok []
  | seen, device :: devices =>
    if seen.contains device.nodeId then
      .error (.badRequest "each device may appear once in a renumber plan")
    else
      match nodes.find? fun node => node.id = device.nodeId && node.active with
      | none => .error .notFound
      | some node => do
        let address ← requestedAddress current device.address
        let rest ← wantedDevices current nodes (device.nodeId :: seen) devices
        .ok ((node, address) :: rest)

def wanted (input : PlanInput) (current : Pool) (nodes : List Node)
    (reservations : List Reservation) : Except ApiError Wanted :=
  match input.pool, input.devices with
  | some cidr, [] => wantedPool cidr current nodes reservations
  | none, device :: devices =>
    if MAX_DEVICE_MOVES < input.devices.length then
      .error (.badRequest ("renumber at most " ++ toString MAX_DEVICE_MOVES ++
        " devices at a time"))
    else do
      let moving ← wantedDevices current nodes [] (device :: devices)
      .ok { target := current, devices := moving, blockers := [] }
  | _, _ => .error (.badRequest "give either a target pool or a list of devices")

/-- The new address of one device: the one asked for, else a bound reservation, else the lowest
free host. -/
def newAddress (reservations : List Reservation) (target : Pool) (blocked : List Host)
    (node : Node) (requested : Option Host) : Except ApiError Host :=
  let bound := (reservations.find? fun reservation =>
    reservation.bindsNode node && target.containsIp reservation.host &&
      !node.addresses.contains (.v4 reservation.host)).map Reservation.host
  match requested.or bound with
  | some host =>
    if node.addresses.contains (.v4 host) then
      .error (.badRequest (node.label ++ " already uses " ++ bare host))
    else if blocked.contains host && bound ≠ some host then
      .error (.conflict (bare host ++ " is in use, reserved or in its reuse grace period"))
    else .ok host
  | none =>
    match target.hosts.find? fun host => !blocked.contains host with
    | some host => .ok host
    | none => .error (.conflict ("no free address left in " ++ target.cidr))

def planMoves (digest : BitVec 56) (reservations : List Reservation) (target : Pool) :
    List Host → List (Node × Option Host) → Except ApiError (List Move)
  | _, [] => .ok []
  | blocked, (node, requested) :: devices => do
    let host ← newAddress reservations target blocked node requested
    match ipv6Twin digest host with
    | none => .error .corruptData
    | some ipv6 => do
      let moves ← planMoves digest reservations target (host :: blocked) devices
      .ok (⟨node.id, node.label, node.addresses, [.v4 host, ipv6]⟩ :: moves)

/-- `plan`; `acl` and `dns` are the organisation's policy and DNS settings as text. -/
def plan (input : PlanInput) (acl dns : String) (views : PlanViews)
    (leases : Table Host Lease) : Except ApiError Planned := do
  let seconds ← window input.windowSeconds
  let current := views.pooled.pool
  let reservations := loadReservations views.reserved
  let blocked := blockedHosts views.blockedNodes.nodes leases
    views.blockedReservations.reservations views.pooled.now
  let wanted ← wanted input current (loadNodes views.listed) reservations
  let moves ← planMoves views.pooled.digest reservations wanted.target blocked wanted.devices
  .ok
    { current := current
      target := wanted.target
      windowSeconds := seconds
      moves := moves
      blockers := wanted.blockers ++ literalReferences "access policy" acl moves ++
        literalReferences "DNS settings" dns moves }

/-! ## Staging -/

def setAddresses (nodes : List Node) (nodeId : Uuid) (addresses : List IpAddr) : List Node :=
  nodes.map fun node => if node.id = nodeId then { node with addresses := addresses } else node

/-- Leases of the new addresses, and both addresses for every device that moves. -/
def stageMoves (time : Int) : List Move → Table Host Lease → List Node →
    Except ApiError (Table Host Lease × List Node)
  | [], leases, nodes => .ok (leases, nodes)
  | move :: moves, leases, nodes =>
    match move.newV4 with
    | none => .error .corruptData
    | some host =>
      match takeLease leases host move.nodeId time with
      | none =>
        .error (.conflict (bare host ++
          " was taken by a concurrent enrolment; preview the plan again"))
      | some leases =>
        stageMoves time moves leases
          (setAddresses nodes move.nodeId (move.newAddresses ++ move.oldAddresses))

/-- What the statements of a staging found. -/
structure CreateViews where
  summarised : Tables
  stamped : StampViews
  planned : PlanViews

/-- Stage a plan: the tables with the devices that move at both addresses. -/
def create (id : Uuid) (input : PlanInput) (acl dns : String) (views : CreateViews)
    (tables : Tables) : Except ApiError Tables := do
  let _ ← checkReason input.reason
  let time := views.summarised.now
  match views.summarised.plans.find? fun plan => plan.state = .staged with
  | some staged =>
    .error (.conflict ("renumber plan " ++ Forwarding.uuidText staged.id ++
      " is still in its dual-address window; complete or roll it back first"))
  | none => do
    let found := stampReleases views.stamped time views.planned.blockedLeases.leases
    let planned ← plan input acl dns views.planned found
    if planned.blockers.isEmpty then do
      let (leases, nodes) ← stageMoves time planned.moves
        (stampReleases views.stamped time tables.leases) tables.nodes
      -- growing the pool moves nobody, so there is no window to wait out
      let state := if planned.moves.isEmpty then PlanState.completed else PlanState.staged
      if tables.issued.contains id ||
          (state = .staged && tables.plans.any fun plan => plan.state = .staged) then
        .error (.conflict "another renumber plan was staged concurrently")
      else
        .ok { tables with
          leases := leases
          nodes := nodes
          pool := if planned.target ≠ planned.current then planned.target else tables.pool
          plans := tables.plans ++ [⟨id, state, planned.current, planned.target, planned.moves,
            time + planned.windowSeconds, 1⟩]
          issued := id :: tables.issued }
    else
      .error (.conflict ("renumbering is blocked: " ++
        Text.join "; " (planned.blockers.map Blocker.detail)))

/-! ## Completion and rollback -/

inductive Finish where
  | complete
  | rollback
  deriving DecidableEq

/-- The addresses a device keeps and those it drops. -/
def Finish.split (how : Finish) (move : Move) : List IpAddr × List IpAddr :=
  match how with
  | .complete => (move.newAddresses, move.oldAddresses)
  | .rollback => (move.oldAddresses, move.newAddresses)

/-- `release_lease`: the device's own unreleased lease. -/
def releaseLease (leases : Table Host Lease) (nodeId : Uuid) (host : Host) (time : Int) :
    Table Host Lease :=
  if leases.lookup host = some ⟨some nodeId, none⟩ then
    leases.insert host ⟨some nodeId, some time⟩
  else leases

/-- The IPv4 hosts a device gives up. -/
def Finish.dropped (how : Finish) (move : Move) : List Host :=
  let (keep, drop) := how.split move
  (drop.filter fun address => !keep.contains address).filterMap v4Host

/-- The dropped addresses wait out the normal grace period. -/
def dropLeases (how : Finish) (time : Int) (leases : Table Host Lease) (move : Move) :
    Table Host Lease :=
  (how.dropped move).foldl (fun leases host => releaseLease leases move.nodeId host time) leases

def finishMove (how : Finish) (time : Int) (state : Table Host Lease × List Node) (move : Move) :
    Table Host Lease × List Node :=
  (dropLeases how time state.1 move, setAddresses state.2 move.nodeId (how.split move).1)

/-- A device that enrolled from the new pool during the window. -/
def strandedNode (plan : Plan) (nodes : List Node) : Option Node :=
  nodes.find? fun node => node.active &&
    !(plan.moves.map Move.nodeId).contains node.id &&
    node.addresses.any fun address => address.isIpv4 && !plan.previousPool.contains address

structure FinishViews where
  planned : Tables
  listed : Tables

/-- `finish`; `expected` stands for the etag, a hash of an id and a revision. -/
def finish (planId : Uuid) (expected : Option (Uuid × Nat)) (how : Finish) (views : FinishViews)
    (tables : Tables) : Except ApiError Tables :=
  match views.planned.plans.find? fun plan => plan.id = planId with
  | none => .error .notFound
  | some plan =>
    if expected.any (· ≠ (plan.id, plan.revision)) then .error .preconditionFailed
    else
      match plan.state with
      | .completed => .error (.conflict "this renumber plan is already completed")
      | .rolledBack => .error (.conflict "this renumber plan is already rolled back")
      | .staged =>
        match (if how = .rollback ∧ plan.previousPool ≠ plan.targetPool then
            strandedNode plan (loadNodes views.listed) else none) with
        | some node =>
          .error (.conflict (node.label ++ " enrolled from the new pool during the window; " ++
            "rolling back would leave it outside " ++ plan.previousPool.cidr ++
            ". Complete the plan, or renumber that device first"))
        | none =>
          if tables.plans.any fun row => row.id = plan.id && row.state = .staged &&
              row.revision = plan.revision then
            let time := views.planned.now
            let (leases, nodes) := plan.moves.foldl (finishMove how time)
              (tables.leases, tables.nodes)
            let state := match how with
              | .complete => PlanState.completed
              | .rollback => PlanState.rolledBack
            .ok { tables with
              leases := leases
              nodes := nodes
              pool := if how = .rollback ∧ plan.previousPool ≠ plan.targetPool then
                  plan.previousPool
                else tables.pool
              plans := tables.plans.map fun row =>
                if row.id = plan.id && row.state = .staged && row.revision = plan.revision then
                  { row with state := state, revision := row.revision + 1 }
                else row }
          else .error .preconditionFailed

/-- `complete_due`: the staged plan is completed once its window has ended. -/
def completeDue (due : Tables) (views : FinishViews) (tables : Tables) : Except ApiError Tables :=
  match due.plans.find? fun plan => plan.state = .staged && plan.windowEndsAt ≤ due.now with
  | none => .ok tables
  | some plan => finish plan.id none .complete views tables

/-! ## What planning decides -/

variable {reservations : List Reservation} {node : Node} {moves : List Move} {current : Pool}
  {nodes : List Node} {input : PlanInput} {acl dns : String} {tables tables' : Tables}

theorem newAddress_eq_ok {target : Pool} {blocked : List Host} {requested : Option Host}
    {host : Host} (h : newAddress reservations target blocked node requested = .ok host) :
    requested = some host ∨ target.containsIp host := by
  unfold newAddress at h
  dsimp only at h
  split at h
  · next chosen hchosen =>
    have heq : chosen = host := by
      split_ifs at h
      exact Except.ok.inj h
    subst heq
    cases requested with
    | some asked => exact .inl hchosen
    | none =>
      -- a bound reservation, which was looked for in the target
      obtain ⟨reservation, hfind, rfl⟩ := Option.map_eq_some_iff.mp hchosen
      have hbound := (List.find?_eq_some_iff_append.mp hfind).1
      simp only [Bool.and_eq_true] at hbound
      exact .inr hbound.1.2
  · split at h
    · next free hfree =>
      cases h
      exact .inr (Pool.mem_hosts.mp (List.mem_of_find?_eq_some hfree))
    · cases h

/-- The move of a device: from all its addresses to a host and its twin, the host being the one
asked for or one of the target. -/
structure Moves (target : Pool) (device : Node × Option Host) (move : Move) : Prop where
  nodeId : move.nodeId = device.1.id
  old : move.oldAddresses = device.1.addresses
  new : ∃ host digest offset, move.newAddresses = [.v4 host, orgUlaAddress digest offset] ∧
    (device.2 = some host ∨ target.containsIp host)

theorem planMoves_eq_ok {devices : List (Node × Option Host)}
    {digest : BitVec 56} {target : Pool} {blocked : List Host}
    (h : planMoves digest reservations target blocked devices = .ok moves) :
    List.Forall₂ (Moves target) devices moves := by
  induction devices generalizing blocked moves with
  | nil =>
    cases h
    exact List.Forall₂.nil
  | cons device devices ih =>
    obtain ⟨host, hhost, h⟩ := bind_ok_iff.mp h
    split at h
    · cases h
    · next ipv6 htwin =>
      obtain ⟨offset, -, rfl⟩ := Option.map_eq_some_iff.mp htwin
      obtain ⟨rest, hrest, h⟩ := bind_ok_iff.mp h
      cases h
      exact List.Forall₂.cons ⟨rfl, rfl, host, digest, offset, rfl, newAddress_eq_ok hhost⟩
        (ih hrest)

/-- What a plan moves: active devices, each once, with requests inside the target; and a new pool
covers the reservations and the devices that stay, unless something blocks it. -/
structure Wanted.Sound (wanted : Wanted) (current : Pool) (nodes : List Node)
    (reservations : List Reservation) : Prop where
  devices : ∀ device ∈ wanted.devices, device.1 ∈ nodes ∧ device.1.active
  apart : (nodes.map Node.id).Nodup → (wanted.devices.map fun device => device.1.id).Nodup
  asked : ∀ device ∈ wanted.devices, ∀ host, device.2 = some host →
    wanted.target.containsIp host
  covers : wanted.target = current ∨ (wanted.blockers = [] →
    (∀ reservation ∈ reservations, wanted.target.containsIp reservation.host) ∧
    ∀ node ∈ nodes, node.active → (∀ device ∈ wanted.devices, device.1 ≠ node) →
      ∀ address ∈ node.addresses, address.isIpv4 → wanted.target.contains address)

theorem wantedPool_sound {cidr : String} {wanted : Wanted}
    (h : wantedPool cidr current nodes reservations = .ok wanted) :
    wanted.Sound current nodes reservations := by
  unfold wantedPool at h
  split at h
  · cases h
  · next target _ =>
    split_ifs at h
    cases h
    refine ⟨?_, ?_, ?_, .inr fun hblockers => ⟨?_, ?_⟩⟩
    · intro device hdevice
      obtain ⟨node, hnode, rfl⟩ := List.mem_map.mp hdevice
      obtain ⟨hmem, hmoves⟩ := List.mem_filter.mp hnode
      exact ⟨hmem, (Bool.and_eq_true _ _ ▸ hmoves).1⟩
    · intro hnodup
      rw [List.map_map]
      exact hnodup.sublist (List.filter_sublist.map _)
    · intro device hdevice host hhost
      obtain ⟨node, -, rfl⟩ := List.mem_map.mp hdevice
      cases hhost
    · intro reservation hreservation
      by_contra houtside
      have hmem : reservation ∈ reservations.filter fun reservation =>
          !target.containsIp reservation.host :=
        List.mem_filter.mpr ⟨hreservation, by simpa using houtside⟩
      rw [List.map_eq_nil_iff] at hblockers
      rw [hblockers] at hmem
      cases hmem
    · intro node hnode hactive hstays address haddress hipv4
      by_contra houtside
      refine hstays (node, none) (List.mem_map.mpr ⟨node, List.mem_filter.mpr ⟨hnode, ?_⟩, rfl⟩) rfl
      rw [hactive, Bool.true_and]
      exact List.any_eq_true.mpr ⟨address, haddress, by simpa [hipv4] using houtside⟩

theorem requestedAddress_eq_ok {value : Option String} {host : Host}
    (h : requestedAddress current value = .ok (some host)) : current.containsIp host := by
  cases value with
  | none => cases h
  | some value =>
    change (canonicalPoolAddress value current).map some = .ok (some host) at h
    cases hcanonical : canonicalPoolAddress value current with
    | error message => rw [hcanonical] at h; cases h
    | ok named =>
      rw [hcanonical] at h
      cases h
      exact contains_of_canonical hcanonical

theorem wantedDevices_eq_ok {devices : List (Node × Option Host)}
    {seen : List Uuid} {inputs : List DeviceInput}
    (h : wantedDevices current nodes seen inputs = .ok devices) :
    (∀ device ∈ devices, (device.1 ∈ nodes ∧ device.1.active) ∧ device.1.id ∉ seen ∧
      ∀ host, device.2 = some host → current.containsIp host) ∧
    (devices.map fun device => device.1.id).Nodup := by
  induction inputs generalizing seen devices with
  | nil =>
    cases h
    exact ⟨nofun, List.nodup_nil⟩
  | cons input inputs ih =>
    unfold wantedDevices at h
    split_ifs at h with hseen
    split at h
    · cases h
    · next node hnode =>
      obtain ⟨address, haddress, h⟩ := bind_ok_iff.mp h
      obtain ⟨rest, hrest, h⟩ := bind_ok_iff.mp h
      cases h
      obtain ⟨hdevices, hnodup⟩ := ih hrest
      have hfound := (List.find?_eq_some_iff_append.mp hnode).1
      simp only [Bool.and_eq_true, decide_eq_true_eq] at hfound
      obtain ⟨hid, hactive⟩ := hfound
      have hasked : ∀ host, address = some host → current.containsIp host := by
        rintro host rfl
        exact requestedAddress_eq_ok haddress
      refine ⟨List.forall_mem_cons.mpr
        ⟨⟨⟨List.mem_of_find?_eq_some hnode, hactive⟩, ?_, hasked⟩, ?_⟩, ?_⟩
      · rw [hid]
        simpa using hseen
      · intro device hdevice
        obtain ⟨hmem, hunseen, hhost⟩ := hdevices device hdevice
        exact ⟨hmem, fun hin => hunseen (List.mem_cons_of_mem _ hin), hhost⟩
      · rw [List.map_cons, List.nodup_cons]
        refine ⟨fun hin => ?_, hnodup⟩
        obtain ⟨device, hdevice, heq⟩ := List.mem_map.mp hin
        exact (hdevices device hdevice).2.1 (by rw [heq, hid]; exact List.mem_cons_self)

theorem wanted_sound {result : Wanted} (h : wanted input current nodes reservations = .ok result) :
    result.Sound current nodes reservations := by
  unfold wanted at h
  split at h
  · exact wantedPool_sound h
  · split_ifs at h
    obtain ⟨devices, hdevices, h⟩ := bind_ok_iff.mp h
    cases h
    obtain ⟨hall, hnodup⟩ := wantedDevices_eq_ok hdevices
    exact ⟨fun device hdevice => (hall device hdevice).1, fun _ => hnodup,
      fun device hdevice => (hall device hdevice).2.2, .inl rfl⟩
  · cases h

/-- A plan: the devices that were wanted move to addresses of the target. -/
theorem plan_eq_ok {views : PlanViews} {leases : Table Host Lease} {planned : Planned}
    (h : plan input acl dns views leases = .ok planned) :
    planned.current = views.pooled.pool ∧
      ∃ wanted : Wanted, Ipam.wanted input views.pooled.pool (loadNodes views.listed)
          (loadReservations views.reserved) = .ok wanted ∧
        planned.target = wanted.target ∧
        (planned.blockers = [] → wanted.blockers = []) ∧
        List.Forall₂ (Moves wanted.target) wanted.devices planned.moves := by
  obtain ⟨seconds, -, h⟩ := bind_ok_iff.mp h
  obtain ⟨result, hwanted, h⟩ := bind_ok_iff.mp h
  obtain ⟨moves, hmoves, h⟩ := bind_ok_iff.mp h
  cases h
  refine ⟨rfl, result, hwanted, rfl, fun hblockers => ?_, planMoves_eq_ok hmoves⟩
  exact (List.append_eq_nil_iff.mp (List.append_eq_nil_iff.mp hblockers).1).1

/-! ## What staging and finishing write -/

/-- The row of a device that some moves gave addresses to. -/
def readdress (addresses : Move → List IpAddr) (moves : List Move) (node : Node) : Node :=
  match moves.find? fun move => move.nodeId = node.id with
  | some move => { node with addresses := addresses move }
  | none => node

variable (addresses : Move → List IpAddr)

theorem readdress_id (moves : List Move) (node : Node) :
    (readdress addresses moves node).id = node.id := by
  unfold readdress
  split
  · rfl
  · rfl

theorem readdress_active (moves : List Move) (node : Node) :
    (readdress addresses moves node).active = node.active := by
  unfold readdress
  split
  · rfl
  · rfl

/-- Among moves of different devices, the move of a device decides. -/
theorem readdress_move (hapart : (moves.map Move.nodeId).Nodup) {move : Move}
    (hmove : move ∈ moves) (hid : node.id = move.nodeId) :
    (readdress addresses moves node).addresses = addresses move := by
  unfold readdress
  rw [hid, find?_key hapart hmove]

theorem readdress_other (hother : ∀ move ∈ moves, move.nodeId ≠ node.id) :
    readdress addresses moves node = node := by
  have hnone : (moves.find? fun move => move.nodeId = node.id) = none :=
    List.find?_eq_none.mpr fun move hmove => by simpa using hother move hmove
  unfold readdress
  rw [hnone]

/-- A device has the addresses of its move, or is none of those that move and stays. -/
theorem readdress_cases (hapart : (moves.map Move.nodeId).Nodup) (node : Node) :
    (∃ move ∈ moves, node.id = move.nodeId ∧
      (readdress addresses moves node).addresses = addresses move) ∨
    (∀ move ∈ moves, move.nodeId ≠ node.id) ∧ readdress addresses moves node = node := by
  by_cases hmoving : ∃ move ∈ moves, node.id = move.nodeId
  · obtain ⟨move, hmove, hid⟩ := hmoving
    exact .inl ⟨move, hmove, hid, readdress_move addresses hapart hmove hid⟩
  · have hother : ∀ move ∈ moves, move.nodeId ≠ node.id :=
      fun move hmove heq => hmoving ⟨move, hmove, heq.symm⟩
    exact .inr ⟨hother, readdress_other addresses hother⟩

theorem foldl_setAddresses (hapart : (moves.map Move.nodeId).Nodup) (nodes : List Node) :
    moves.foldl (fun nodes move => setAddresses nodes move.nodeId (addresses move)) nodes =
      nodes.map (readdress addresses moves) := by
  induction moves generalizing nodes with
  | nil =>
    exact (List.map_id nodes).symm
  | cons move moves ih =>
    rw [List.map_cons, List.nodup_cons] at hapart
    rw [List.foldl_cons, ih hapart.2, setAddresses, List.map_map]
    refine List.map_congr_left fun node _ => ?_
    by_cases hid : node.id = move.nodeId
    · -- no later move is of the same device
      have hlater : ∀ other ∈ moves, other.nodeId ≠ node.id := by
        intro other hother heq
        exact hapart.1 (List.mem_map.mpr ⟨other, hother, heq.trans hid⟩)
      have hstays : readdress addresses moves { node with addresses := addresses move } =
          { node with addresses := addresses move } := readdress_other addresses hlater
      simp only [Function.comp_apply, if_pos hid]
      rw [hstays]
      simp [readdress, hid]
    · simp only [Function.comp_apply, if_neg hid]
      simp [readdress, Ne.symm hid]

theorem stageMoves_nodes {time : Int} {leases leases' : Table Host Lease} {nodes' : List Node}
    (h : stageMoves time moves leases nodes = .ok (leases', nodes')) :
    nodes' = moves.foldl (fun nodes move =>
      setAddresses nodes move.nodeId (move.newAddresses ++ move.oldAddresses)) nodes := by
  induction moves generalizing leases nodes with
  | nil => exact (Prod.mk.inj (Except.ok.inj h)).2.symm
  | cons move moves ih =>
    unfold stageMoves at h
    split at h
    · cases h
    · split at h
      · cases h
      · exact ih h

theorem foldl_finishMove (how : Finish) (time : Int) (moves : List Move)
    (leases : Table Host Lease) (nodes : List Node) :
    moves.foldl (finishMove how time) (leases, nodes) =
      (moves.foldl (dropLeases how time) leases,
        moves.foldl (fun nodes move => setAddresses nodes move.nodeId (how.split move).1)
          nodes) := by
  induction moves generalizing leases nodes with
  | nil => rfl
  | cons move moves ih => exact ih _ _

structure Created (id : Uuid) (input : PlanInput) (views : CreateViews) (tables tables' : Tables) :
    Prop where
  fresh : id ∉ tables.issued
  planned : ∃ (planned : Planned) (wanted : Wanted) (leases : Table Host Lease)
      (nodes : List Node) (windowEndsAt : Int),
    planned.current = views.planned.pooled.pool ∧
    Ipam.wanted input views.planned.pooled.pool (loadNodes views.planned.listed)
      (loadReservations views.planned.reserved) = .ok wanted ∧
    planned.target = wanted.target ∧ wanted.blockers = [] ∧
    List.Forall₂ (Moves wanted.target) wanted.devices planned.moves ∧
    stageMoves views.summarised.now planned.moves
      (stampReleases views.stamped views.summarised.now tables.leases) tables.nodes =
        .ok (leases, nodes) ∧
    (planned.moves ≠ [] → ∀ plan ∈ tables.plans, plan.state ≠ .staged) ∧
    tables' = { tables with
      leases := leases
      nodes := nodes
      pool := if planned.target ≠ planned.current then planned.target else tables.pool
      plans := tables.plans ++ [⟨id,
        if planned.moves.isEmpty then PlanState.completed else PlanState.staged, planned.current,
        planned.target, planned.moves, windowEndsAt, 1⟩]
      issued := id :: tables.issued }
  unstaged : ∀ plan ∈ views.summarised.plans, plan.state ≠ .staged

theorem create_eq_ok {id : Uuid} {views : CreateViews}
    (h : create id input acl dns views tables = .ok tables') :
    Created id input views tables tables' := by
  obtain ⟨reason, -, h⟩ := bind_ok_iff.mp h
  split at h
  · cases h
  · next hunstaged =>
    obtain ⟨planned, hplanned, h⟩ := bind_ok_iff.mp h
    obtain ⟨hcurrent, wanted, hwanted, htarget, hunblocked, hmoves⟩ := plan_eq_ok hplanned
    cases hblockers : planned.blockers with
    | cons blocker blockers => rw [hblockers] at h; cases h
    | nil =>
      rw [hblockers] at h
      obtain ⟨⟨leases, nodes⟩, hstage, h⟩ := bind_ok_iff.mp h
      obtain ⟨hfree, h⟩ := unless_ok_iff.mp h
      rw [Bool.or_eq_true, not_or] at hfree
      have hnone : ∀ plan ∈ views.summarised.plans, plan.state ≠ .staged := fun plan hplan => by
        simpa using List.find?_eq_none.mp hunstaged plan hplan
      refine ⟨by simpa using hfree.1,
        ⟨planned, wanted, leases, nodes, _, hcurrent, hwanted, htarget,
        hunblocked hblockers, hmoves, hstage, fun hmoving plan hplan hstaged => hfree.2 ?_,
        (Except.ok.inj h).symm⟩, hnone⟩
      have hstate : planned.moves.isEmpty = false := List.isEmpty_eq_false_iff.mpr hmoving
      rw [hstate, Bool.and_eq_true]
      exact ⟨rfl, List.any_eq_true.mpr ⟨plan, hplan, decide_eq_true hstaged⟩⟩

/-- What a finish writes. -/
structure Finished (planId : Uuid) (how : Finish) (views : FinishViews)
    (tables tables' : Tables) : Prop where
  plan : ∃ plan ∈ views.planned.plans, plan.id = planId ∧
    (∃ row ∈ tables.plans, row.id = plan.id ∧ row.state = .staged ∧
      row.revision = plan.revision) ∧
    (how = .rollback → plan.previousPool ≠ plan.targetPool →
      strandedNode plan (loadNodes views.listed) = none) ∧
    ∃ state : PlanState, state ≠ .staged ∧ tables' = { tables with
      leases := plan.moves.foldl (dropLeases how views.planned.now) tables.leases
      nodes := plan.moves.foldl (fun nodes move =>
        setAddresses nodes move.nodeId (how.split move).1) tables.nodes
      pool := if how = .rollback ∧ plan.previousPool ≠ plan.targetPool then plan.previousPool
        else tables.pool
      plans := tables.plans.map fun row =>
        if row.id = plan.id && row.state = .staged && row.revision = plan.revision then
          { row with state := state, revision := row.revision + 1 }
        else row }

theorem finish_eq_ok {views : FinishViews}
    {planId : Uuid} {expected : Option (Uuid × Nat)} {how : Finish}
    (h : finish planId expected how views tables = .ok tables') :
    Finished planId how views tables tables' := by
  unfold finish at h
  split at h
  · cases h
  · next plan hplan =>
    obtain ⟨-, h⟩ := unless_ok_iff.mp h
    cases hstate : plan.state with
    | completed | rolledBack => rw [hstate] at h; cases h
    | staged =>
      rw [hstate] at h
      dsimp only at h
      split at h
      · cases h
      · next hstranded =>
        cases hrow : tables.plans.any fun row => row.id = plan.id && row.state = .staged &&
            row.revision = plan.revision with
        | false => rw [hrow] at h; cases h
        | true =>
          rw [hrow, foldl_finishMove] at h
          obtain ⟨row, hmem, hmatch⟩ := List.any_eq_true.mp hrow
          simp only [Bool.and_eq_true, decide_eq_true_eq] at hmatch
          refine ⟨plan, List.mem_of_find?_eq_some hplan,
            by simpa using (List.find?_eq_some_iff_append.mp hplan).1,
            ⟨row, hmem, hmatch.1.1, hmatch.1.2, hmatch.2⟩, fun hrollback hpool => ?_, _, ?_,
            (Except.ok.inj h).symm⟩
          · rwa [if_pos ⟨hrollback, hpool⟩] at hstranded
          · cases how with
            | complete | rollback => decide

/-- A due plan is completed as any other. -/
theorem completeDue_eq_ok {views : FinishViews}
    {due : Tables} (h : completeDue due views tables = .ok tables') :
    tables' = tables ∨ ∃ planId, Finished planId .complete views tables tables' := by
  unfold completeDue at h
  split at h
  · exact .inl (Except.ok.inj h).symm
  · exact .inr ⟨_, finish_eq_ok h⟩

/-! ## Transactions -/

inductive Request where
  | enrol (enrolment : Enrolment)
  | reserve (id : Uuid) (input : ReserveInput)
  | release (id : Uuid) (expected : Uuid × Nat)
  | create (id : Uuid) (input : PlanInput) (acl dns : String)
  | finish (planId : Uuid) (expected : Option (Uuid × Nat)) (how : Finish)
  | completeDue
  | revoke (id : Uuid)
  | tombstone (id : Uuid)
  | purge
  | tick (seconds : Nat)

/-- What a request writes, given what its statements found in their order. -/
def Request.write : Request → List Tables → Tables → Except ApiError Tables
  | .enrol enrolment,
      [removed, orphaned, pooled, listed, reserved, nodes, leases, reservations], tables =>
    Ipam.enrol enrolment
      ⟨⟨removed, orphaned⟩, pooled, listed, reserved, nodes, leases, reservations⟩ tables
  | .reserve id input, [pooled, removed, orphaned, reserved, listed], tables =>
    Ipam.reserve id input ⟨pooled, ⟨removed, orphaned⟩, reserved, listed⟩ tables
  | .release id expected, [found], tables => Ipam.release id expected found tables
  | .create id input acl dns,
      [summarised, removed, orphaned, pooled, listed, reserved, nodes, leases, reservations],
      tables =>
    Ipam.create id input acl dns
      ⟨summarised, ⟨removed, orphaned⟩,
        ⟨pooled, listed, reserved, nodes, leases, reservations⟩⟩ tables
  | .finish planId expected how, [planned, listed], tables =>
    Ipam.finish planId expected how ⟨planned, listed⟩ tables
  | .completeDue, [due, planned, listed], tables => Ipam.completeDue due ⟨planned, listed⟩ tables
  | .revoke id, [], tables => Ipam.revoke id tables
  | .tombstone id, [found], tables => Ipam.tombstone id found tables
  | .purge, [], tables => .ok (Ipam.purge tables)
  | .tick seconds, [], tables => .ok { tables with now := tables.now + seconds }
  | _, _, _ => .error .corruptData

/-- Every transaction on the address tables.  Staging locks the organisation's row with its first
statement; enrolments, plans and deletions raise the revision in that row. -/
def ipam : Protocol Tables Request where
  reads
    | .enrol _ => 8
    | .reserve _ _ => 5
    | .release _ _ => 1
    | .create _ _ _ _ => 9
    | .finish _ _ _ => 2
    | .completeDue => 3
    | .tombstone _ => 1
    | .revoke _ | .purge | .tick _ => 0
  holds
    | .create _ _ _ _ => true
    | _ => false
  waits
    | .enrol _ | .create _ _ _ _ | .finish _ _ _ | .completeDue | .tombstone _ => true
    | _ => false
  write := fun request views tables => (request.write views tables).toOption

end BlakTail.Ipam
