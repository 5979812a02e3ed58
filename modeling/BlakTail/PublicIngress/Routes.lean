import BlakTail.Dataplane.Policy
import BlakTail.Foundation.Run

/-!
# The Live Route Table

A public ingress serves the routes its coordinator delivered.  A request looks its route up
and, when it is upgraded, holds on to the route object in a tunnel.  Two signals end a tunnel:
the route's watch channel, and a check every second that the table still holds this very
object under its name.

Route objects live on a heap and are compared by address, as `Arc::ptr_eq` does.
-/

namespace BlakTail.PublicIngress

open Foundation

/-! ## Configuration -/

structure RouteConfig where
  id : String
  fqdn : String
  targetAddress : String
  targetPort : Nat
  tlsMode : String
  authMode : String
  allowedEmailDomains : List String := []
  allowedSourceCidrs : List String := []
  rateLimitPerMinute : Int
  maxBodyBytes : Int
  maxConnections : Int
  logRetentionDays : Int
  revision : Int
  deriving DecidableEq

structure IngressConfig where
  revision : Int
  staleAfterSecs : Nat
  routes : List RouteConfig

/-- An address with a length its family allows. -/
def parseCidr (cidr : String) : Option (IpAddr × Nat) := do
  let (address, bits) ← Text.splitOnce '/' cidr
  let address ← IpAddr.parse address
  let bits ← Text.parseU8 bits
  if bits ≤ (if address.isIpv4 then 32 else 128) then some (address, bits) else none

/-- Same family and equal under the mask. -/
def cidrContains (network : IpAddr) (bits : Nat) (ip : IpAddr) : Bool :=
  match network, ip with
  | .v4 network, .v4 ip =>
    network &&& Dataplane.mask 32 bits == ip &&& Dataplane.mask 32 bits
  | .v6 network, .v6 ip =>
    network &&& Dataplane.mask 128 bits == ip &&& Dataplane.mask 128 bits
  | _, _ => false

/-- Which target addresses the proxy may ever dial. -/
structure TargetPolicy where
  allowed : List (IpAddr × Nat) := [(.v4 0x64400000#32, 10)]

def TargetPolicy.permits (policy : TargetPolicy) (ip : IpAddr) : Bool :=
  policy.allowed.any fun (network, bits) => cidrContains network bits ip

/-! ## The table -/

/-- One route as served, without the state of its limiters. -/
structure LiveRoute where
  config : RouteConfig
  target : IpAddr × Nat
  sources : List (IpAddr × Nat)
  ratePerMinute : Nat
  connections : Nat
  deriving DecidableEq

def LiveRoute.new (config : RouteConfig) (target : IpAddr × Nat) (sources : List (IpAddr × Nat)) :
    LiveRoute where
  config := config
  target := target
  sources := sources
  ratePerMinute := (max 1 (min config.rateLimitPerMinute 60000)).toNat
  connections := (max 1 (min config.maxConnections 4096)).toNat

def RouteConfig.name (route : RouteConfig) : String := Text.toAsciiLowercase route.fqdn

/-- The target and the client networks of a route, or why it is refused. -/
def accept (policy : TargetPolicy) (route : RouteConfig) :
    Except String ((IpAddr × Nat) × List (IpAddr × Nat)) :=
  let outside := "target is outside the overlay address range this ingress may dial"
  match IpAddr.parse route.targetAddress with
  | none => .error outside
  | some ip =>
    if policy.permits ip && route.targetPort != 0 then
      match route.allowedSourceCidrs.mapM parseCidr with
      | none => .error "route has an invalid allowed client network"
      | some sources => .ok ((ip, route.targetPort), sources)
    else .error outside

/-- What `apply` has put together so far; `heap` holds every route object ever made. -/
structure Building where
  heap : List LiveRoute
  next : Table String Nat := ∅

/-- Put the object at an address under a name. -/
def Building.serve (b : Building) (name : String) (address : Nat) : Building :=
  { b with next := b.next.insert name address }

/-- `Arc::new(LiveRoute::new(..))`. -/
def Building.create (b : Building) (route : RouteConfig) (target : IpAddr × Nat)
    (sources : List (IpAddr × Nat)) : Building :=
  { b with heap := b.heap ++ [LiveRoute.new route target sources] }.serve route.name b.heap.length

/-- One turn of the loop of `apply`. -/
def place (policy : TargetPolicy) (old : Table String Nat) (b : Building) (route : RouteConfig) :
    Building :=
  match accept policy route with
  | .error _ => b
  | .ok (target, sources) =>
    match old.lookup route.name with
    | none => b.create route target sources
    | some address =>
      match b.heap[address]? with
      | none => b.create route target sources
      | some existing =>
        if existing.config = route ∧ existing.target = target then b.serve route.name address
        else b.create route target sources

/-- Who ended a tunnel: the route table, or one of the two connections. -/
inductive Ending where
  | table
  | connection
  deriving DecidableEq

/-- A tunnel from the lookup of its route on. -/
inductive Stage where
  /-- Route found, upgrade under way; the watch channel is not subscribed yet. -/
  | opening
  | running
  | ended (cause : Ending)
  deriving DecidableEq

structure Tunnel where
  address : Nat
  stage : Stage := .opening
  deriving DecidableEq

namespace Tunnel

variable (tunnel : Tunnel)

/-- Both sides are upgraded: the tunnel subscribes and starts to copy. -/
def start : Tunnel :=
  if tunnel.stage = .opening then { tunnel with stage := .running } else tunnel

/-- A signal of the route table reaches the tunnel; it matters to a running one. -/
def stop (signal : Bool) : Tunnel :=
  if tunnel.stage = .running ∧ signal = true then { tunnel with stage := .ended .table }
  else tunnel

/-- A side closes, or the upgrade fails. -/
def close : Tunnel :=
  match tunnel.stage with
  | .ended _ => tunnel
  | _ => { tunnel with stage := .ended .connection }

@[simp] theorem start_address : tunnel.start.address = tunnel.address := by
  unfold start
  split_ifs <;> rfl

@[simp] theorem stop_address (signal : Bool) : (tunnel.stop signal).address = tunnel.address := by
  unfold stop
  split_ifs <;> rfl

@[simp] theorem stop_false : tunnel.stop false = tunnel := by
  simp [stop]

@[simp] theorem close_address : tunnel.close.address = tunnel.address := by
  unfold close
  split <;> rfl

end Tunnel

/-- A second, in the unit of the monotonic clock. -/
def SECOND : Nat := 1000000000

/-- The route table with its heap, the clock, and the tunnels. -/
structure Server where
  heap : List LiveRoute := []
  routes : Table String Nat := ∅
  freshUntil : Option Nat := none
  revision : Int := 0
  /-- Addresses whose watch channel holds `true`. -/
  revoked : List Nat := []
  clock : Nat := 0
  tunnels : List Tunnel := []

namespace Server

variable (s : Server)

/-- Whether a receiver of the object's watch channel exists. -/
def watched (address : Nat) : Bool :=
  s.tunnels.any fun tunnel => tunnel.address = address && tunnel.stage = .running

/-- `watch::Sender::send(true)` on some objects: without a receiver the value stays. -/
def revoke (addresses : List Nat) : Server :=
  { s with revoked := s.revoked ++ addresses.filter s.watched }

/-- The objects that `next` does not hold under their name any more. -/
def dropped (next : Table String Nat) : List Nat :=
  (s.routes.entries.filter fun entry => next.lookup entry.1 ≠ some entry.2).map (·.2)

/-- `RouteTable::apply`: replaces the table with `config`. -/
def apply (policy : TargetPolicy) (config : IngressConfig) : Server :=
  let built := config.routes.foldl (place policy s.routes) { heap := s.heap }
  { s.revoke (s.dropped built.next) with
    heap := built.heap
    routes := built.next
    revision := config.revision
    freshUntil := some (s.clock + min config.staleAfterSecs 30 * SECOND) }

/-- `RouteTable::confirm`: the coordinator confirmed nothing changed. -/
def confirm (staleAfter : Nat) : Server :=
  { s with freshUntil := some (s.clock + min staleAfter (30 * SECOND)) }

/-- `RouteTable::clear`: withdraws everything. -/
def clear : Server :=
  { s.revoke (s.routes.entries.map (·.2)) with routes := ∅, freshUntil := none }

def isFresh : Bool := s.freshUntil.any fun limit => s.clock < limit

/-- `RouteTable::get`: a live route for `host`, unless the table is stale. -/
def get (host : String) : Option Nat :=
  if s.isFresh then s.routes.lookup (Text.toAsciiLowercase host) else none

def setTunnel (i : Nat) (change : Tunnel → Tunnel) : Server :=
  { s with tunnels := s.tunnels.modify i change }

/-- What a tunnel's check finds: the table still holds its object under its name. -/
def stillLive (address : Nat) : Bool :=
  match s.heap[address]? with
  | none => false
  | some route => s.get route.config.fqdn = some address

end Server

/-- What may happen, in any order. -/
inductive Event where
  | pass (time : Nat)
  | apply (config : IngressConfig)
  | confirm (staleAfter : Nat)
  | clear
  /-- A request for `host` that will be upgraded looks its route up. -/
  | lookup (host : String)
  /-- Both sides of a tunnel are upgraded: it subscribes and starts to copy. -/
  | start (tunnel : Nat)
  /-- The tick of a tunnel's interval. -/
  | check (tunnel : Nat)
  /-- A tunnel sees `true` on its watch channel. -/
  | notice (tunnel : Nat)
  /-- A side of a tunnel closes, or its upgrade fails. -/
  | close (tunnel : Nat)

namespace Event

/-- The events that set the time up to which the table is fresh. -/
def refreshes : Event → Bool
  | apply _ => true
  | confirm _ => true
  | _ => false

def time : Event → Nat
  | pass time => time
  | _ => 0

end Event

def openTunnel (address : Option Nat) : List Tunnel :=
  match address with
  | none => []
  | some address => [{ address := address }]

/-- Applying, confirming and clearing the table, lookups, and what tunnels do. -/
def Server.step (policy : TargetPolicy) (s : Server) : Event → Server
  | .pass time => { s with clock := s.clock + time }
  | .apply config => s.apply policy config
  | .confirm staleAfter => s.confirm staleAfter
  | .clear => s.clear
  | .lookup host => { s with tunnels := s.tunnels ++ openTunnel (s.get host) }
  | .start i => s.setTunnel i Tunnel.start
  | .check i => s.setTunnel i fun tunnel => tunnel.stop (!s.stillLive tunnel.address)
  | .notice i => s.setTunnel i fun tunnel => tunnel.stop (s.revoked.contains tunnel.address)
  | .close i => s.setTunnel i Tunnel.close

/-! ## Which objects survive an apply -/

/-- The route a configuration serves under a name: the last one that is not refused. -/
def IngressConfig.serves (policy : TargetPolicy) (config : IngressConfig) (name : String) :
    Option RouteConfig :=
  (config.routes.filter fun route => route.name = name ∧ (accept policy route).isOk).getLast?

/-- The object at `address` serves `route` and was accepted. -/
def Serves (policy : TargetPolicy) (heap : List LiveRoute) (address : Nat) (route : RouteConfig) :
    Prop :=
  ∃ live sources, heap[address]? = some live ∧ live.config = route ∧
    accept policy route = .ok (live.target, sources)

variable {policy : TargetPolicy} {heap : List LiveRoute} {address : Nat}

theorem Serves.append {route : RouteConfig} (h : Serves policy heap address route)
    (more : List LiveRoute) : Serves policy (heap ++ more) address route := by
  obtain ⟨live, sources, hlive, hrest⟩ := h
  have hlt : address < heap.length := (List.getElem?_eq_some_iff.mp hlive).1
  exact ⟨live, sources, by rw [List.getElem?_append_left hlt, hlive], hrest⟩

theorem Serves.lt {route : RouteConfig} (h : Serves policy heap address route) :
    address < heap.length := by
  obtain ⟨live, -, hlive, -⟩ := h
  exact (List.getElem?_eq_some_iff.mp hlive).1

theorem Serves.unique {route route' : RouteConfig} (h : Serves policy heap address route)
    (h' : Serves policy heap address route') : route = route' := by
  obtain ⟨live, -, hlive, rfl, -⟩ := h
  obtain ⟨live', -, hlive', rfl, -⟩ := h'
  rw [Option.some.inj (hlive.symm.trans hlive')]

section Apply

variable (policy : TargetPolicy) (old : Table String Nat)

/-- How one turn places a route: it is refused, or its name gets the object that already
serves it, or a new object. -/
theorem place_cases (b : Building) (route : RouteConfig) :
    ((accept policy route).isOk = false ∧ (place policy old b route).next = b.next ∧
      (place policy old b route).heap = b.heap) ∨
    ∃ address more, (accept policy route).isOk ∧
      (place policy old b route).next = b.next.insert route.name address ∧
      (place policy old b route).heap = b.heap ++ more ∧
      Serves policy (b.heap ++ more) address route ∧
      (old.lookup route.name = some address ∧ more = [] ∨
        address = b.heap.length ∧
          ∀ kept, old.lookup route.name = some kept → ¬ Serves policy b.heap kept route) := by
  unfold place
  cases haccept : accept policy route with
  | error reason => exact .inl ⟨rfl, rfl, rfl⟩
  | ok accepted =>
    obtain ⟨target, sources⟩ := accepted
    -- A new object serves the route, whatever was there before.
    have hcreate : Serves policy (b.heap ++ [LiveRoute.new route target sources]) b.heap.length
        route := ⟨LiveRoute.new route target sources, sources, by simp, rfl, haccept⟩
    refine .inr ?_
    cases hold : old.lookup route.name with
    | none =>
      exact ⟨_, _, rfl, rfl, rfl, hcreate, .inr ⟨rfl, nofun⟩⟩
    | some address =>
      cases hheap : b.heap[address]? with
      | none =>
        simp only [hheap]
        refine ⟨_, _, rfl, rfl, rfl, hcreate, .inr ⟨rfl, fun kept hkept hserves => ?_⟩⟩
        obtain ⟨live, -, hlive, -⟩ := Option.some.inj hkept ▸ hserves
        simp [hheap] at hlive
      | some existing =>
        simp only [hheap]
        split_ifs with hsame
        · exact ⟨address, [], rfl, rfl, by simp [Building.serve],
            ⟨existing, sources, by simp [hheap], hsame.1, hsame.2 ▸ haccept⟩, .inl ⟨rfl, rfl⟩⟩
        · refine ⟨_, _, rfl, rfl, rfl, hcreate, .inr ⟨rfl, fun kept hkept hserves => hsame ?_⟩⟩
          obtain ⟨live, sources', hlive, hconfig, hlive'⟩ := Option.some.inj hkept ▸ hserves
          cases hheap.symm.trans hlive
          rw [haccept] at hlive'
          exact ⟨hconfig, (Prod.mk.inj (Except.ok.inj hlive')).1.symm⟩

/-- The whole loop: the heap only grows; a name gets an object of the route that is served
under it, an old or a new one; and an object that already serves the route stays. -/
theorem placed (heap : List LiveRoute) (config : IngressConfig) :
    let built := config.routes.foldl (place policy old) { heap := heap }
    ∃ more, built.heap = heap ++ more ∧
      (∀ name address, built.next.lookup name = some address →
        ∃ route, config.serves policy name = some route ∧ Serves policy built.heap address route ∧
          (old.lookup name = some address ∨ heap.length ≤ address)) ∧
      ∀ name address route, config.serves policy name = some route →
        old.lookup name = some address → Serves policy heap address route →
        built.next.lookup name = some address := by
  obtain ⟨revision, stale, routes⟩ := config
  unfold IngressConfig.serves
  induction routes using List.reverseRecOn with
  | nil => exact ⟨[], by simp, by simp, by simp⟩
  | append_singleton routes last ih =>
    obtain ⟨more, hheap, horigin, hkept⟩ := ih
    rw [List.foldl_append, List.foldl_cons, List.foldl_nil]
    generalize routes.foldl (place policy old) { heap := heap } = b at *
    rcases place_cases policy old b last with ⟨hrefused, hnext, hsame⟩ |
      ⟨address, added, haccepted, hnext, hmore, hserves, hfrom⟩
    · -- A refused route changes nothing, and is not served either.
      have hfilter : ∀ name, (routes ++ [last]).filter (fun route =>
          route.name = name ∧ (accept policy route).isOk) =
          routes.filter fun route => route.name = name ∧ (accept policy route).isOk := by
        intro name
        simp [List.filter_append, hrefused]
      simp only [hfilter]
      rw [hnext, hsame]
      exact ⟨more, hheap, horigin, hkept⟩
    · -- An accepted one takes its name: a later route of a name wins, here and in `serves`.
      refine ⟨more ++ added, by rw [hmore, hheap, List.append_assoc], ?_, ?_⟩
      · intro name found hfound
        rw [hnext, Table.lookup_insert_if] at hfound
        split_ifs at hfound with hname
        · cases hfound
          refine ⟨last, by simp [List.filter_append, hname, haccepted], hmore ▸ hserves, ?_⟩
          rcases hfrom with ⟨hold, -⟩ | ⟨rfl, -⟩
          · exact .inl (hname ▸ hold)
          · exact .inr (by rw [hheap]; simp)
        · obtain ⟨route, hroute, hobject, horigin'⟩ := horigin name found hfound
          refine ⟨route, ?_, hmore ▸ hobject.append added, horigin'⟩
          simpa [List.filter_append, List.filter_cons, Ne.symm hname] using hroute
      · intro name kept route hroute hold hobject
        rw [hnext, Table.lookup_insert_if]
        split_ifs with hname
        · subst hname
          obtain rfl : last = route := by
            simpa [List.filter_append, haccepted] using hroute
          rcases hfrom with ⟨hfirst, -⟩ | ⟨-, hnone⟩
          · rw [← hfirst, hold]
          · exact absurd (hheap ▸ hobject.append more) (hnone kept hold)
        · refine hkept name kept route ?_ hold hobject
          simpa [List.filter_append, List.filter_cons, Ne.symm hname] using hroute

end Apply

/-! ## Invariants of the table -/

namespace Server

variable {policy : TargetPolicy} {s : Server} {config : IngressConfig} {address : Nat}
  {change : Tunnel → Tunnel} {i : Nat} {route : RouteConfig}

/-- What holds in every state: the table's objects exist, stand under their own names and
are not revoked, revoked objects and those of tunnels exist, and freshness ends within 30
seconds. -/
structure Sound (policy : TargetPolicy) (s : Server) : Prop where
  named : ∀ name address, s.routes.lookup name = some address →
    ∃ route, Serves policy s.heap address route ∧ route.name = name
  unrevoked : ∀ name address, s.routes.lookup name = some address → address ∉ s.revoked
  revokedMade : ∀ address ∈ s.revoked, address < s.heap.length
  held : ∀ tunnel ∈ s.tunnels, tunnel.address < s.heap.length
  bounded : ∀ limit, s.freshUntil = some limit → limit ≤ s.clock + 30 * SECOND

/-- An object that stands under no name. -/
structure Gone (address : Nat) (s : Server) : Prop where
  made : address < s.heap.length
  unnamed : ∀ name, s.routes.lookup name ≠ some address

theorem apply_heap (policy : TargetPolicy) (s : Server) (config : IngressConfig) :
    ∃ more, (s.apply policy config).heap = s.heap ++ more :=
  (placed policy s.routes s.heap config).imp fun _ h => h.1

/-- An entry of the new table: an object of the route served under the name, old or new. -/
theorem apply_lookup {name : String}
    (h : (s.apply policy config).routes.lookup name = some address) :
    ∃ route, config.serves policy name = some route ∧
      Serves policy (s.apply policy config).heap address route ∧
      (s.routes.lookup name = some address ∨ s.heap.length ≤ address) := by
  obtain ⟨_, -, horigin, -⟩ := placed policy s.routes s.heap config
  exact horigin name address h

theorem serves_name {name : String} {route : RouteConfig}
    (h : config.serves policy name = some route) : route.name = name := by
  have hmem := List.mem_of_getLast? h
  exact (of_decide_eq_true (List.mem_filter.mp hmem).2).1

theorem mem_dropped {next : Table String Nat} :
    address ∈ s.dropped next ↔
      ∃ name, s.routes.lookup name = some address ∧ next.lookup name ≠ some address := by
  simp only [dropped, List.mem_map, List.mem_filter, decide_eq_true_eq]
  constructor
  · rintro ⟨⟨name, found⟩, ⟨hmem, hnext⟩, rfl⟩
    exact ⟨name, Table.lookup_eq_some_iff.mpr hmem, hnext⟩
  · rintro ⟨name, hmem, hnext⟩
    exact ⟨⟨name, address⟩, ⟨Table.lookup_eq_some_iff.mp hmem, hnext⟩, rfl⟩

theorem mem_revoke {addresses : List Nat} : address ∈ (s.revoke addresses).revoked ↔
    address ∈ s.revoked ∨ (address ∈ addresses ∧ s.watched address) := by
  rw [revoke, List.mem_append, List.mem_filter]

section

variable (h : s.Sound policy)
include h

/-- An object stands under one name. -/
theorem Sound.name_unique {name name' : String} (hname : s.routes.lookup name = some address)
    (hname' : s.routes.lookup name' = some address) : name = name' := by
  obtain ⟨route, hroute, rfl⟩ := h.named name address hname
  obtain ⟨route', hroute', rfl⟩ := h.named name' address hname'
  rw [hroute.unique hroute']

theorem Sound.made {name : String} (hname : s.routes.lookup name = some address) :
    address < s.heap.length := by
  obtain ⟨route, hroute, -⟩ := h.named name address hname
  exact hroute.lt

theorem apply_sound (config : IngressConfig) :
    (s.apply policy config).Sound policy where
  named name address hlookup := by
    obtain ⟨route, hroute, hobject, -⟩ := apply_lookup hlookup
    exact ⟨route, hobject, serves_name hroute⟩
  unrevoked name address hlookup hmem := by
    obtain ⟨route, -, -, horigin⟩ := apply_lookup hlookup
    -- A new object is not among the old addresses, and an old one kept its name.
    rcases mem_revoke.mp hmem with hbefore | ⟨hnow, -⟩
    · rcases horigin with hold | hnew
      · exact h.unrevoked name address hold hbefore
      · exact absurd (h.revokedMade address hbefore) (not_lt.mpr hnew)
    · obtain ⟨name', hold', hnext⟩ := mem_dropped.mp hnow
      rcases horigin with hold | hnew
      · obtain rfl := h.name_unique hold hold'
        exact hnext hlookup
      · exact absurd (h.made hold') (not_lt.mpr hnew)
  revokedMade address hmem := by
    obtain ⟨more, hmore⟩ := apply_heap policy s config
    rw [hmore, List.length_append]
    refine Nat.lt_add_right _ ?_
    rcases mem_revoke.mp hmem with hbefore | ⟨hnow, -⟩
    · exact h.revokedMade address hbefore
    · obtain ⟨name, hold, -⟩ := mem_dropped.mp hnow
      exact h.made hold
  held tunnel hmem := by
    obtain ⟨more, hmore⟩ := apply_heap policy s config
    rw [hmore, List.length_append]
    exact Nat.lt_add_right _ (h.held tunnel hmem)
  bounded limit hlimit := by
    cases hlimit
    exact Nat.add_le_add_left (Nat.mul_le_mul_right _ (min_le_right _ _)) _

theorem clear_sound : s.clear.Sound policy where
  named name address hlookup := by simp [clear] at hlookup
  unrevoked name address hlookup := by simp [clear] at hlookup
  revokedMade address hmem := by
    rcases mem_revoke.mp hmem with hbefore | ⟨hnow, -⟩
    · exact h.revokedMade address hbefore
    · obtain ⟨⟨name, found⟩, hentry, rfl⟩ := List.mem_map.mp hnow
      exact h.made (Table.lookup_eq_some_iff.mpr hentry)
  held := h.held
  bounded limit hlimit := by simp [clear] at hlimit

end

theorem get_eq_some {host : String} (h : s.get host = some address) :
    s.isFresh ∧ s.routes.lookup (Text.toAsciiLowercase host) = some address := by
  unfold get at h
  split_ifs at h with hfresh
  exact ⟨hfresh, h⟩

/-- Changing a tunnel without its object touches nothing else. -/
theorem setTunnel_sound (h : s.Sound policy) (i : Nat)
    (hchange : ∀ tunnel, (change tunnel).address = tunnel.address) :
    (s.setTunnel i change).Sound policy where
  named := h.named
  unrevoked := h.unrevoked
  revokedMade := h.revokedMade
  held tunnel hmem := by
    obtain ⟨j, hj⟩ := List.mem_iff_getElem?.mp hmem
    rw [setTunnel, List.getElem?_modify] at hj
    obtain ⟨before, hbefore, rfl⟩ := Option.map_eq_some_iff.mp hj
    have hlt := h.held before (List.mem_of_getElem? hbefore)
    split_ifs
    · exact (hchange before).symm ▸ hlt
    · exact hlt
  bounded := h.bounded

variable (e : Event)

theorem step_sound (h : s.Sound policy) : (s.step policy e).Sound policy := by
  cases e with
  | pass time =>
    exact { h with bounded := fun limit hlimit => le_trans (h.bounded limit hlimit) (by
      show s.clock + 30 * SECOND ≤ s.clock + time + 30 * SECOND
      omega) }
  | apply config => exact apply_sound h config
  | confirm staleAfter =>
    refine { h with bounded := fun limit hlimit => ?_ }
    cases hlimit
    exact Nat.add_le_add_left (min_le_right _ _) _
  | clear => exact clear_sound h
  | lookup host =>
    refine { h with held := fun tunnel hmem => ?_ }
    rcases List.mem_append.mp hmem with hmem | hmem
    · exact h.held tunnel hmem
    · unfold openTunnel at hmem
      split at hmem
      · cases hmem
      · next hget =>
        cases List.mem_singleton.mp hmem
        exact h.made (get_eq_some hget).2
  | start i => exact setTunnel_sound h i Tunnel.start_address
  | check i | notice i => exact setTunnel_sound h i fun tunnel => tunnel.stop_address _
  | close i => exact setTunnel_sound h i Tunnel.close_address

theorem run_sound (policy : TargetPolicy) (events : List Event) :
    (run (step policy) {} events).Sound policy :=
  run_invariant (fun _ e => step_sound e) events
    { named := by simp, unrevoked := by simp, revokedMade := by simp, held := by simp,
      bounded := by simp }

/-! ## Objects and tunnels over a run -/

/-- The heap only grows. -/
theorem step_heap (policy : TargetPolicy) (s : Server) (e : Event) :
    ∃ more, (s.step policy e).heap = s.heap ++ more := by
  cases e with
  | apply config => exact apply_heap policy s config
  | _ => exact ⟨[], (List.append_nil s.heap).symm⟩

/-- An object keeps its name or is new. -/
theorem step_named {name : String} (h : (s.step policy e).routes.lookup name = some address)
    (hmade : address < s.heap.length) : s.routes.lookup name = some address := by
  cases e with
  | apply config =>
    obtain ⟨route, -, -, hold | hnew⟩ := apply_lookup h
    · exact hold
    · exact absurd hmade (not_lt.mpr hnew)
  | clear => simp [step, clear] at h
  | _ => exact h

theorem step_made (h : address < s.heap.length) : address < (s.step policy e).heap.length := by
  obtain ⟨more, hmore⟩ := step_heap policy s e
  rw [hmore, List.length_append]
  exact Nat.lt_add_right _ h

/-- Once an object stands under no name, it never does again. -/
theorem step_gone (h : s.Gone address) : (s.step policy e).Gone address :=
  ⟨step_made e h.made, fun name hlookup => h.unnamed name (step_named e hlookup h.made)⟩

/-- Tunnel `i` holds the object at `address`. -/
def Holds (i address : Nat) (s : Server) : Prop :=
  ∃ tunnel, s.tunnels[i]? = some tunnel ∧ tunnel.address = address

theorem setTunnel_getElem? (s : Server) (i j : Nat) (change : Tunnel → Tunnel) :
    (s.setTunnel i change).tunnels[j]? =
      (s.tunnels[j]?).map fun tunnel => if i = j then change tunnel else tunnel := by
  rw [setTunnel, List.getElem?_modify]
  cases s.tunnels[j]? <;> simp

theorem setTunnel_holds {j : Nat} (h : s.Holds j address)
    (hchange : ∀ tunnel, (change tunnel).address = tunnel.address) :
    (s.setTunnel i change).Holds j address := by
  obtain ⟨tunnel, htunnel, rfl⟩ := h
  refine ⟨if i = j then change tunnel else tunnel, by simp [setTunnel_getElem?, htunnel], ?_⟩
  split_ifs
  · exact hchange tunnel
  · rfl

/-- A tunnel holds the object it was opened with. -/
theorem step_holds (h : s.Holds i address) : (s.step policy e).Holds i address := by
  cases e with
  | pass _ | apply _ | confirm _ | clear => exact h
  | lookup host =>
    obtain ⟨tunnel, htunnel, haddress⟩ := h
    have hlt := (List.getElem?_eq_some_iff.mp htunnel).1
    exact ⟨tunnel, by simp [step, List.getElem?_append_left hlt, htunnel], haddress⟩
  | start j => exact setTunnel_holds h Tunnel.start_address
  | check j | notice j => exact setTunnel_holds h fun tunnel => tunnel.stop_address _
  | close j => exact setTunnel_holds h Tunnel.close_address

theorem step_serves (h : Serves policy s.heap address route) :
    Serves policy (s.step policy e).heap address route := by
  obtain ⟨more, hmore⟩ := step_heap policy s e
  exact hmore ▸ h.append more

theorem run_serves (events : List Event) (h : Serves policy s.heap address route) :
    Serves policy (run (step policy) s events).heap address route := by
  induction events generalizing s with
  | nil => exact h
  | cons e events ih => exact ih (step_serves e h)

/-! ## Withdrawal -/

/-- The event takes the route away: a configuration that lacks its name, serves another
route under it or has its target refused, or the table being cleared. -/
def Withdraws (policy : TargetPolicy) (route : RouteConfig) : Event → Prop
  | .apply config => config.serves policy route.name ≠ some route
  | .clear => True
  | _ => False

/-- It is enough that no route of that name which passes is the same. -/
theorem withdraws_of_changed
    (h : ∀ other ∈ config.routes, other.name = route.name → (accept policy other).isOk →
      other ≠ route) :
    Withdraws policy route (.apply config) := by
  intro hserves
  obtain ⟨hmem, hkept⟩ := List.mem_filter.mp (List.mem_of_getLast? hserves)
  obtain ⟨hname, hok⟩ := of_decide_eq_true hkept
  exact h route hmem hname hok rfl

/-- A withdrawn route's object stands under no name. -/
theorem step_withdrawn {e : Event} (hserves : Serves policy s.heap address route)
    (hw : Withdraws policy route e) : (s.step policy e).Gone address := by
  refine ⟨(step_serves e hserves).lt, fun name => ?_⟩
  cases e with
  | apply config =>
    intro hlookup
    obtain ⟨found, hfound, hobject, -⟩ := apply_lookup hlookup
    -- The object serves one route, so it could only be served as itself.
    obtain rfl := hobject.unique (step_serves (.apply config) hserves)
    rw [← serves_name hfound] at hfound
    exact hw hfound
  | clear => simp [step, clear]
  | _ => exact hw.elim

def carries (s : Server) (i : Nat) : Bool :=
  (s.tunnels[i]?).any fun tunnel => tunnel.stage = .running

/-- The route table ended tunnel `i`. -/
def closedByTable (s : Server) (i : Nat) : Bool :=
  (s.tunnels[i]?).any fun tunnel => tunnel.stage = .ended .table

/-- A check that does not find the tunnel's object ends the tunnel. -/
theorem check_ends (policy : TargetPolicy) (hholds : s.Holds i address)
    (hlive : s.stillLive address = false) : (s.step policy (.check i)).carries i = false := by
  obtain ⟨tunnel, htunnel, rfl⟩ := hholds
  simp only [carries, step, setTunnel_getElem?, htunnel, Option.map_some, if_true, Option.any_some,
    hlive, Tunnel.stop]
  split_ifs with hrunning
  · simp
  · simpa using hrunning

theorem Gone.not_live (h : s.Gone address) : s.stillLive address = false := by
  unfold stillLive
  split
  · rfl
  · exact decide_eq_false fun hget => h.unnamed _ (get_eq_some hget).2

theorem not_live_of_stale (h : s.isFresh = false) (address : Nat) :
    s.stillLive address = false := by
  unfold stillLive
  split
  · rfl
  · simp [get, h]

/-! ## Freshness -/

theorem step_quiet {e : Event} (policy : TargetPolicy) (s : Server) (he : e.refreshes = false) :
    (s.step policy e).clock = s.clock + e.time ∧
      ((s.step policy e).freshUntil = s.freshUntil ∨ (s.step policy e).freshUntil = none) := by
  cases e with
  | apply _ | confirm _ => cases he
  | clear => exact ⟨rfl, .inr rfl⟩
  | _ => exact ⟨rfl, .inl rfl⟩

/-- While nothing refreshes the table, the limit stays and the clock goes on. -/
theorem run_quiet {quiet : List Event}
    (policy : TargetPolicy) (s : Server) (hquiet : ∀ e ∈ quiet, e.refreshes = false) :
    (run (step policy) s quiet).clock = s.clock + (quiet.map Event.time).sum ∧
      ((run (step policy) s quiet).freshUntil = s.freshUntil ∨
        (run (step policy) s quiet).freshUntil = none) := by
  induction quiet generalizing s with
  | nil => exact ⟨rfl, .inl rfl⟩
  | cons e quiet ih =>
    obtain ⟨he, hrest⟩ := List.forall_mem_cons.mp hquiet
    obtain ⟨hclock, hlimit⟩ := step_quiet policy s he
    obtain ⟨hclock', hlimit'⟩ := ih (s.step policy e) hrest
    refine ⟨by rw [run_cons, hclock', hclock, List.map_cons, List.sum_cons, Nat.add_assoc], ?_⟩
    rw [run_cons]
    rcases hlimit' with hkept | hnone
    · rw [hkept]
      exact hlimit
    · exact .inr hnone

/-- Thirty seconds without a refresh leave the table stale. -/
theorem stale_after {quiet : List Event}
    (h : s.Sound policy) (hquiet : ∀ e ∈ quiet, e.refreshes = false)
    (hlong : 30 * SECOND ≤ (quiet.map Event.time).sum) :
    (run (step policy) s quiet).isFresh = false := by
  obtain ⟨hclock, hlimit⟩ := run_quiet policy s hquiet
  unfold isFresh
  rcases hlimit with hkept | hnone
  · rw [hkept]
    cases hfresh : s.freshUntil with
    | none => rfl
    | some limit =>
      have := h.bounded limit hfresh
      simp only [Option.any_some, decide_eq_false_iff_not]
      omega
  · rw [hnone]
    rfl

/-! ## Unchanged routes -/

/-- The event leaves the route as it is: a configuration has exactly one route of that name,
the same one, and the table is fresh afterwards. -/
def Unchanged (policy : TargetPolicy) (route : RouteConfig) (s : Server) (e : Event) : Prop :=
  (∀ config, e = .apply config →
    config.routes.filter (fun other => other.name = route.name) = [route]) ∧
  (s.step policy e).isFresh

/-- The table serves the route from the object at `address`, which tunnel `i` holds and
which has not ended it. -/
structure Served (policy : TargetPolicy) (route : RouteConfig) (i address : Nat) (s : Server) :
    Prop where
  sound : s.Sound policy
  serves : Serves policy s.heap address route
  named : s.routes.lookup route.name = some address
  fresh : s.isFresh
  tunnel : ∃ tunnel, s.tunnels[i]? = some tunnel ∧ tunnel.address = address ∧
    tunnel.stage ≠ .ended .table

theorem Served.live (h : s.Served policy route i address) : s.stillLive address := by
  obtain ⟨live, -, hlive, rfl, -⟩ := h.serves
  simp only [stillLive, hlive, get, h.fresh, if_true]
  exact decide_eq_true h.named

theorem serves_unchanged (hok : (accept policy route).isOk)
    (h : config.routes.filter (fun other => other.name = route.name) = [route]) :
    config.serves policy route.name = some route := by
  have hboth : config.routes.filter (fun other =>
      other.name = route.name ∧ (accept policy other).isOk) = [route] := by
    have := congrArg (List.filter fun other => (accept policy other).isOk) h
    simpa [List.filter_filter, hok, Bool.and_comm] using this
  rw [IngressConfig.serves, hboth]
  rfl

/-- Changing tunnels keeps the route served, unless it ends tunnel `i` for the table. -/
theorem Served.setTunnel {j : Nat} (h : s.Served policy route i address)
    (haddress : ∀ tunnel, (change tunnel).address = tunnel.address)
    (hstage : ∀ tunnel, tunnel.address = address → tunnel.stage ≠ .ended .table →
      (change tunnel).stage ≠ .ended .table) :
    (s.setTunnel j change).Served policy route i address where
  sound := setTunnel_sound h.sound j haddress
  serves := h.serves
  named := h.named
  fresh := h.fresh
  tunnel := by
    obtain ⟨tunnel, htunnel, hobject, hopen⟩ := h.tunnel
    refine ⟨if j = i then change tunnel else tunnel, by simp [setTunnel_getElem?, htunnel], ?_⟩
    split_ifs
    · exact ⟨(haddress tunnel).trans hobject, hstage tunnel hobject hopen⟩
    · exact ⟨hobject, hopen⟩

/-- An event that leaves the route unchanged leaves it served. -/
theorem step_served (e : Event) (hunchanged : Unchanged policy route s e)
    (h : s.Served policy route i address) : (s.step policy e).Served policy route i address := by
  have hsound := step_sound e h.sound
  have hserves := step_serves e h.serves
  cases e with
  | pass _ | confirm _ => exact ⟨hsound, hserves, h.named, hunchanged.2, h.tunnel⟩
  | apply config =>
    obtain ⟨_, -, -, hkept⟩ := placed policy s.routes s.heap config
    obtain ⟨_, _, -, -, haccept⟩ := h.serves
    have hroute := serves_unchanged (by rw [haccept]; rfl) (hunchanged.1 config rfl)
    exact ⟨hsound, hserves, hkept _ _ _ hroute h.named h.serves, hunchanged.2, h.tunnel⟩
  | clear => exact absurd hunchanged.2 (by simp [step, clear, isFresh])
  | lookup host =>
    obtain ⟨tunnel, htunnel, hrest⟩ := h.tunnel
    have hlt := (List.getElem?_eq_some_iff.mp htunnel).1
    exact ⟨hsound, hserves, h.named, hunchanged.2,
      ⟨tunnel, by simp [step, List.getElem?_append_left hlt, htunnel], hrest⟩⟩
  | start j =>
    refine h.setTunnel Tunnel.start_address fun tunnel _ hopen => ?_
    unfold Tunnel.start
    split_ifs
    · simp
    · exact hopen
  | check j =>
    refine h.setTunnel (fun tunnel => tunnel.stop_address _) fun tunnel hobject hopen => ?_
    rw [hobject, h.live, Bool.not_true, Tunnel.stop_false]
    exact hopen
  | notice j =>
    -- The table's objects are not revoked.
    refine h.setTunnel (fun tunnel => tunnel.stop_address _) fun tunnel hobject hopen => ?_
    have hquiet : s.revoked.contains address = false := by
      simpa using h.sound.unrevoked _ _ h.named
    rw [hobject, hquiet, Tunnel.stop_false]
    exact hopen
  | close j =>
    refine h.setTunnel Tunnel.close_address fun tunnel _ hopen => ?_
    unfold Tunnel.close
    split
    · exact hopen
    · simp

/-- The state right after a lookup has found an object. -/
theorem lookup_served (h : s.Sound policy) {host : String} {live : LiveRoute}
    (hfound : s.get host = some address) (hlive : s.heap[address]? = some live) :
    (s.step policy (.lookup host)).Served policy live.config s.tunnels.length address := by
  obtain ⟨hfresh, hlookup⟩ := get_eq_some hfound
  obtain ⟨route, hserves, hname⟩ := h.named _ _ hlookup
  obtain ⟨live', -, hlive', rfl, -⟩ := id hserves
  cases hlive.symm.trans hlive'
  exact ⟨step_sound (.lookup host) h, hserves, hname ▸ hlookup, hfresh,
    ⟨{ address := address }, by simp [step, hfound, openTunnel], rfl, by simp⟩⟩

/-- **Withdrawn routes stop carrying traffic.**  A tunnel opened from a route that was looked
up after any events:
ends at every check made after the route was withdrawn, also when it is published again in
between; ends at every check made while nothing has refreshed the table for 30 seconds; and
is not ended by the table while the route stays unchanged in a fresh table. -/
theorem withdrawn_routes_close (policy : TargetPolicy) (before : List Event) (host : String)
    (address : Nat) (live : LiveRoute)
    (hfound : (run (step policy) {} before).get host = some address)
    (hlive : (run (step policy) {} before).heap[address]? = some live) :
    let i := (run (step policy) {} before).tunnels.length
    let opened := run (step policy) {} (before ++ [.lookup host])
    (∀ earlier withdrawal later, Withdraws policy live.config withdrawal →
      (run (step policy) opened (earlier ++ withdrawal :: (later ++ [.check i]))).carries i =
        false) ∧
    (∀ events quiet, (∀ e ∈ quiet, e.refreshes = false) →
      30 * SECOND ≤ (quiet.map Event.time).sum →
      (run (step policy) opened (events ++ (quiet ++ [.check i]))).carries i = false) ∧
    ∀ events, Along (step policy) (Unchanged policy live.config) opened events →
      (run (step policy) opened events).closedByTable i = false := by
  intro i opened
  have hopened : opened.Served policy live.config i address := by
    have hserved := lookup_served (run_sound policy before) hfound hlive
    rwa [← run_nil (step policy) (step policy (run (step policy) {} before) (.lookup host)),
      ← run_cons, ← run_append] at hserved
  have hholds : ∀ events, (run (step policy) opened events).Holds i address := by
    obtain ⟨tunnel, htunnel, haddress, -⟩ := hopened.tunnel
    have hfirst : opened.Holds i address := ⟨tunnel, htunnel, haddress⟩
    exact fun events => run_invariant (fun _ e => step_holds e) events hfirst
  refine ⟨fun earlier withdrawal later hw => ?_, fun events quiet hquiet hlong => ?_,
    fun events halong => ?_⟩
  · -- a route once gone stays gone: another publication makes another object
    have hserves := run_serves earlier hopened.serves
    have hgone : (run (step policy) opened (earlier ++ withdrawal :: later)).Gone address := by
      rw [run_append]
      exact run_invariant (fun _ e => step_gone e) later (step_withdrawn hserves hw)
    have hends := check_ends policy (hholds (earlier ++ withdrawal :: later))
      hgone.not_live
    rw [← List.cons_append, ← List.append_assoc, run_append]
    exact hends
  · have hsound : (run (step policy) opened events).Sound policy :=
      run_invariant (fun _ e => step_sound e) events hopened.sound
    have hstale := stale_after hsound hquiet hlong
    rw [← run_append] at hstale
    have hends := check_ends policy (hholds (events ++ quiet))
      (not_live_of_stale hstale address)
    rw [← List.append_assoc, run_append]
    exact hends
  · have hserved : (run (step policy) opened events).Served policy live.config i address :=
      run_invariant_along (fun _ e => step_served e) halong hopened
    obtain ⟨tunnel, htunnel, -, hstage⟩ := hserved.tunnel
    simp [closedByTable, htunnel, hstage]

/-! ## What receivers read -/

/-- What the receiver of tunnel `i` reads on its watch channel. -/
def reads (s : Server) (i : Nat) : Option Bool := do
  let tunnel ← s.tunnels[i]?
  if tunnel.stage = .running then some (s.revoked.contains tunnel.address) else none

theorem reads_eq_some {value : Bool} (hholds : s.Holds i address) (h : s.reads i = some value) :
    value ↔ address ∈ s.revoked := by
  obtain ⟨tunnel, htunnel, rfl⟩ := hholds
  simp only [reads, htunnel, bind, Option.bind_some, Option.ite_none_right_eq_some] at h
  cases h.2
  exact List.contains_iff_mem

/-- The one way a channel comes to hold `true`: its object loses its name while it is watched. -/
theorem step_revoked (e : Event) : address ∈ (s.step policy e).revoked ↔
    address ∈ s.revoked ∨ (s.watched address ∧ ∃ name,
      s.routes.lookup name = some address ∧
        (s.step policy e).routes.lookup name ≠ some address) := by
  cases e with
  | apply config =>
    rw [and_comm, ← mem_dropped]
    exact mem_revoke
  | clear =>
    refine mem_revoke.trans (or_congr_right (and_comm.trans (and_congr_right fun _ => ?_)))
    simp [step, clear, Table.lookup_eq_some_iff]
  | _ => exact ⟨.inl, fun h => h.elim id fun ⟨_, _, hnamed, hgone⟩ => absurd hnamed hgone⟩

/-- In every run, a receiver of an object in the table reads `false`.  Once an event has taken the
object out of the table or replaced it, all its receivers read `true`, those that subscribe later
too, exactly if one of them existed at that event. -/
theorem receivers_read (policy : TargetPolicy) (before : List Event) {name : String} {address : Nat}
    (hnamed : (run (step policy) {} before).routes.lookup name = some address) :
    let s := run (step policy) {} before
    (∀ i value, s.Holds i address → s.reads i = some value → value = false) ∧
      ∀ e after i value, (s.step policy e).routes.lookup name ≠ some address →
        (run (step policy) (s.step policy e) after).Holds i address →
        (run (step policy) (s.step policy e) after).reads i = some value →
        (value ↔ s.watched address) := by
  intro s
  have hsound : s.Sound policy := run_sound policy before
  have hunrevoked := hsound.unrevoked name address hnamed
  refine ⟨fun i value hholds hreads => ?_, fun e after i value hremoved hholds hreads => ?_⟩
  · exact Bool.eq_false_iff.mpr fun htrue => hunrevoked ((reads_eq_some hholds hreads).mp htrue)
  have hfirst : (s.step policy e).Gone address ∧
      (address ∈ (s.step policy e).revoked ↔ s.watched address) := by
    refine ⟨⟨step_made e (hsound.made hnamed), fun name' hlookup => ?_⟩, ?_⟩
    · obtain rfl := hsound.name_unique hnamed (step_named e hlookup (hsound.made hnamed))
      exact hremoved hlookup
    · rw [step_revoked, or_iff_right hunrevoked]
      exact and_iff_left ⟨name, hnamed, hremoved⟩
  have hstep : ∀ (s' : Server) e', s'.Gone address ∧ (address ∈ s'.revoked ↔ s.watched address) →
      (s'.step policy e').Gone address ∧
        (address ∈ (s'.step policy e').revoked ↔ s.watched address) := by
    rintro s' e' ⟨hgone, hread⟩
    refine ⟨step_gone e' hgone, ?_⟩
    -- an object without a name is not withdrawn a second time
    rwa [step_revoked, or_iff_left fun ⟨_, name', hlookup, _⟩ => hgone.unnamed name' hlookup]
  have hafter := run_invariant hstep after hfirst
  exact (reads_eq_some hholds hreads).trans hafter.2

end Server

/-! ## A route withdrawn and published again -/

/-- A published application. -/
def appRoute : RouteConfig where
  id := "1"
  fqdn := "app.example.org.au"
  targetAddress := "100.64.0.9"
  targetPort := 8080
  tlsMode := "operator_files"
  authMode := "none"
  rateLimitPerMinute := 6000
  maxBodyBytes := 1024
  maxConnections := 64
  logRetentionDays := 7
  revision := 1

def appConfig (routes : List RouteConfig) : IngressConfig :=
  { revision := 7, staleAfterSecs := 30, routes := routes }

/-- The tunnel runs; after an empty configuration and the same route again, its next check
ends it. -/
theorem withdrawn_routes_close_republished :
    let opened := run (Server.step {}) {} [.apply (appConfig [appRoute]),
      .lookup "APP.example.org.au"]
    (run (Server.step {}) opened [.start 0]).carries 0 ∧
      (run (Server.step {}) opened [.start 0, .apply (appConfig []),
        .apply (appConfig [appRoute]), .check 0]).carries 0 = false := by
  have hclosed := Server.withdrawn_routes_close {} [.apply (appConfig [appRoute])]
    "APP.example.org.au" 0 (LiveRoute.new appRoute (.v4 0x64400009#32, 8080) [])
    (by decide) (by decide)
  exact ⟨by decide, hclosed.1 [.start 0] (.apply (appConfig [])) [.apply (appConfig [appRoute])]
    (Server.withdraws_of_changed (List.forall_mem_nil _))⟩

/-- One tunnel subscribes before the table is cleared, the other after: both read `true`. -/
theorem receivers_read_watched :
    let s := run (Server.step {}) {} [.apply (appConfig [appRoute]), .lookup "app.example.org.au",
      .lookup "app.example.org.au", .start 0]
    s.watched 0 ∧ (run (Server.step {}) (s.step {} .clear) [.start 1]).reads 1 = some true := by
  intro s
  have hnamed : s.routes.lookup "app.example.org.au" = some 0 := by decide
  have hread : (run (Server.step {}) (s.step {} .clear) [.start 1]).reads 1 = some true := by decide
  exact ⟨((Server.receivers_read {} _ hnamed).2 .clear [.start 1] 1 true (by decide)
    ⟨_, rfl, by decide⟩ hread).mp rfl, hread⟩

/-- Nobody has subscribed when the table is cleared: the tunnel that does so next reads `false`,
for as long as it runs. -/
theorem late_receiver_reads_false :
    let s := run (Server.step {}) {} [.apply (appConfig [appRoute]), .lookup "app.example.org.au",
      .clear, .start 0]
    s.routes.lookup "app.example.org.au" = none ∧ s.reads 0 = some false ∧
      (run (Server.step {}) s [.notice 0, .pass 60000000000, .notice 0]).reads 0 = some false := by
  decide

end BlakTail.PublicIngress
