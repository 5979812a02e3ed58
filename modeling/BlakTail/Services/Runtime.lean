import BlakTail.Control.Peer
import BlakTail.Foundation.Address

/-!
# Serving Private Services

A node that serves private services keeps a route for each name it terminates TLS for: the
certificate, the sources that may connect and the loopback port behind it.  Every pass of
`manage` fetches the assigned services, renews certificates, probes the ports and rebuilds the
routes; a pass whose list cannot be fetched only drops expired routes.

A route is identified by the watch channel it was created with; a connection lives as long as
a route with its channel is in the table.
-/

namespace BlakTail.Services

open Foundation Control

/-! ## Records -/

/-- Coordinator-compiled sources that may reach one service. -/
structure ServiceAccess where
  id : Uuid
  fqdn : String
  allowedSources : List String := []

/-- What the serving runtime reads of the node's state. -/
structure NodeState where
  serveServices : Bool := false
  serviceAccess : List ServiceAccess := []
  serveServicesPorts : List Nat := []
  serviceListenPort : Option Nat := none
  interfaceAddresses : List String := []

structure AssignedService where
  id : Uuid
  fqdn : String
  port : Nat
  protocol : String

structure IssuedCertificate where
  certificatePem : String
  serial : String
  notAfter : Int

/-- A certificate this node holds for one service; `fqdn` is the name it was requested for. -/
structure Held where
  fqdn : String
  serial : String
  issuedAt : Int
  notAfter : Int
  certificatePem : String
  keyPem : String
  deriving DecidableEq

/-- A served name; `config` is the certificate its TLS configuration presents. -/
structure Route where
  config : Held
  allowed : Finset IpAddr
  upstream : IpAddr × Nat
  notAfter : Int
  serial : String
  closed : Nat
  deriving DecidableEq

/-- A route the current pass wants installed. -/
structure Desired where
  config : Held
  allowed : Finset IpAddr
  upstream : IpAddr × Nat
  notAfter : Int
  serial : String

/-- The answer to the request for the assigned services. -/
inductive Answer where
  | assigned (services : List AssignedService)
  | refused
  | failed

/-- One pass: the node's state, the time, and the outcome of everything outside the runtime.
Outcomes that belong to a service are indexed by its place in the list. -/
structure Pass where
  state : NodeState
  now : Int
  answer : Answer
  /-- What is read from the state directory. -/
  stored : Uuid → Option Held
  /-- A new key and the certificate issued for it. -/
  requests : Nat → Option (String × IssuedCertificate)
  /-- Whether the port answers HTTP. -/
  answers : Nat → Bool
  /-- Whether certificate and key are usable. -/
  usable : Held → Bool
  binds : Bool

/-- An accepted connection and the route it picked. -/
structure Connection where
  name : String
  source : IpAddr
  route : Route

structure Runtime where
  table : Table String Route := ∅
  held : Table Uuid Held := ∅
  listener : Option (List (IpAddr × Nat)) := none
  /-- Number of watch channels made so far. -/
  channels : Nat := 0
  connections : List Connection := []
  /-- The state the last pass was given. -/
  seen : NodeState := {}

/-! ## Certificates -/

def renewalDue (issuedAt notAfter now : Int) : Bool :=
  issuedAt + max (notAfter - issuedAt) 0 * 2 / 3 ≤ now

/-- The certificate kept for a request that was answered. -/
def Held.issued (service : AssignedService) (now : Int) (key : String)
    (issued : IssuedCertificate) :
    Held where
  fqdn := service.fqdn
  serial := issued.serial
  issuedAt := now
  notAfter := issued.notAfter
  certificatePem := issued.certificatePem
  keyPem := key

/-- What is held for a service before a request: the certificate in memory or the stored one. -/
def loadStored (p : Pass) (held : Table Uuid Held) (id : Uuid) : Table Uuid Held :=
  if (held.lookup id).isSome then held
  else
    match p.stored id with
    | some stored => held.insert id stored
    | none => held

def ensureCertificate (p : Pass) (n : Nat) (service : AssignedService) (held : Table Uuid Held) :
    Table Uuid Held :=
  let held := loadStored p held service.id
  let due := match held.lookup service.id with
    | some h => !Text.eqIgnoreAsciiCase h.fqdn service.fqdn ||
      renewalDue h.issuedAt h.notAfter p.now
    | none => true
  if !due then held
  else
    match p.requests n with
    | some (key, issued) => held.insert service.id (.issued service p.now key issued)
    | none => held

/-! ## Wanted routes -/

/-- The health of a local target; only plain HTTP is probed. -/
def probeTarget (service : AssignedService) (answers : Bool) : Bool :=
  service.protocol == "http" && answers

/-- Certificates and probes of the services from place `n` on. -/
def prepare (p : Pass) : Nat → List AssignedService → Table Uuid Held → Table Uuid Bool →
    Table Uuid Held × Table Uuid Bool
  | _, [], held, probes => (held, probes)
  | n, service :: services, held, probes =>
    if p.state.serveServicesPorts.contains service.port then
      prepare p (n + 1) services (ensureCertificate p n service held)
        (probes.insert service.id (probeTarget service (p.answers n)))
    else prepare p (n + 1) services held (probes.insert service.id false)

/-- The access entry of an id; of several the last counts. -/
def accessOf (state : NodeState) (id : Uuid) : Option ServiceAccess :=
  state.serviceAccess.reverse.find? fun entry => entry.id = id

def ServiceAccess.sources (entry : ServiceAccess) : Finset IpAddr :=
  (entry.allowedSources.filterMap fun source =>
    (IpAddr.parse source).map IpAddr.toCanonical).toFinset

def allowedFor (state : NodeState) (service : AssignedService) : Finset IpAddr :=
  (((accessOf state service.id).filter fun entry =>
    Text.eqIgnoreAsciiCase entry.fqdn service.fqdn).map ServiceAccess.sources).getD ∅

def LOCALHOST : IpAddr := .v4 0x7f000001#32

def wanted (p : Pass) (held : Table Uuid Held) (probes : Table Uuid Bool)
    (service : AssignedService) : Option Desired := do
  let h ← held.lookup service.id
  if h.notAfter ≤ p.now || service.protocol != "http" || !(probes.lookup service.id).getD false then
    none
  else if p.usable h then
    some ⟨h, allowedFor p.state service, (LOCALHOST, service.port), h.notAfter, h.serial⟩
  else none

/-- The wanted routes by name; of several services of one name the last counts. -/
def desired (p : Pass) (held : Table Uuid Held) (probes : Table Uuid Bool) :
    List AssignedService → Table String Desired → Table String Desired
  | [], routes => routes
  | service :: services, routes =>
    desired p held probes services
      (match wanted p held probes service with
        | some d => routes.insert (Text.toAsciiLowercase service.fqdn) d
        | none => routes)

/-! ## The route table -/

/-- A route is kept when serial, sources and upstream are the wanted ones. -/
def Route.fits (route : Route) (d : Desired) : Bool :=
  route.serial == d.serial && route.allowed == d.allowed && route.upstream == d.upstream

def Desired.route (d : Desired) (channel : Nat) : Route :=
  ⟨d.config, d.allowed, d.upstream, d.notAfter, d.serial, channel⟩

/-- Install the wanted routes whose names are free. -/
def install : List (Sigma fun _ : String => Desired) → Table String Route → Nat →
    Table String Route × Nat
  | [], table, channels => (table, channels)
  | ⟨name, d⟩ :: rest, table, channels =>
    if (table.lookup name).isSome then install rest table channels
    else install rest (table.insert name (d.route channels)) (channels + 1)

def applyRoutes (s : Runtime) (routes : Table String Desired) : Runtime :=
  let kept := s.table.retain fun name route => (routes.lookup name).any fun d => route.fits d
  let installed := install routes.entries kept s.channels
  { s with table := installed.1, channels := installed.2 }

/-- `overlay_bind_addrs` on the port the node listens on. -/
def bindAddrs (state : NodeState) : List (IpAddr × Nat) :=
  let port := (state.serviceListenPort.filter (· ≠ 0)).getD 443
  state.interfaceAddresses.filterMap fun address =>
    ((Text.splitChars '/' address.toList).head?.bind fun host =>
      IpAddr.parse (String.ofList host)).map fun ip => (ip, port)

def ensureListener (s : Runtime) (p : Pass) : Runtime :=
  if s.table.entries.isEmpty then { s with listener := none }
  else if s.listener = some (bindAddrs p.state) then s
  else if p.binds then { s with listener := some (bindAddrs p.state) }
  else { s with listener := none }

def dropExpired (s : Runtime) (now : Int) : Runtime :=
  let table := s.table.retain fun _ route => now < route.notAfter
  { s with table := table, listener := if table.entries.isEmpty then none else s.listener }

namespace Runtime

variable (s : Runtime)

/-- Drop every route, the listener and the certificates. -/
def forgetAll : Runtime := { s with table := ∅, held := ∅, listener := none }

def reconcile (p : Pass) (services : List AssignedService) : Runtime :=
  let held := s.held.retain fun id _ => services.any fun service => service.id = id
  let (held, probes) := prepare p 0 services held ∅
  let s := applyRoutes { s with held := held } (desired p held probes services ∅)
  ensureListener s p

/-- One pass, without the health report. -/
def manage (p : Pass) : Runtime :=
  let s := { s with seen := p.state }
  if !p.state.serveServices then
    if !s.held.entries.isEmpty || s.listener.isSome then s.forgetAll else s
  else
    match p.answer with
    | .assigned services => s.reconcile p services
    | .refused => s.forgetAll
    | .failed => dropExpired s p.now

/-- A connection asks for a name: unknown sources are dropped first, then those the route of the
name does not allow.  The listener is asked for at this moment; a connection accepted earlier may in
fact pick its route after a re-bind has failed. -/
def connect (sni : String) (peer : IpAddr) (now : Int) : Runtime :=
  let source := peer.toCanonical
  let name := Text.toAsciiLowercase (Text.trimEndMatches '.' sni)
  if s.listener.isNone || !s.table.entries.any fun e => decide (source ∈ e.2.allowed) then s
  else
    match s.table.lookup name with
    | some route =>
      if source ∈ route.allowed ∧ now < route.notAfter then
        { s with connections := ⟨name, source, route⟩ :: s.connections }
      else s
    | none => s

/-- The sender of the connection's channel is still held by a route. -/
def live (c : Connection) : Bool :=
  s.table.entries.any fun e => e.2.closed = c.route.closed

end Runtime

inductive Event where
  | pass (p : Pass)
  | connect (sni : String) (peer : IpAddr) (now : Int)

def Runtime.step (s : Runtime) : Event → Runtime
  | .pass p => s.manage p
  | .connect sni peer now => s.connect sni peer now

/-! ## What certificates become -/

/-- What a service's certificate becomes, from the one in memory. -/
def certificateFor (p : Pass) (n : Nat) (service : AssignedService) (held : Option Held) :
    Option Held :=
  let known := held.or (p.stored service.id)
  let due := match known with
    | some h => !Text.eqIgnoreAsciiCase h.fqdn service.fqdn ||
      renewalDue h.issuedAt h.notAfter p.now
    | none => true
  if !due then known
  else
    match p.requests n with
    | some (key, issued) => some (.issued service p.now key issued)
    | none => known

theorem lookup_loadStored (p : Pass) (held : Table Uuid Held) (id id' : Uuid) :
    (loadStored p held id).lookup id' =
      if id' = id then (held.lookup id).or (p.stored id) else held.lookup id' := by
  unfold loadStored
  cases hheld : held.lookup id with
  | some h =>
    rw [Option.isSome_some, if_pos rfl, Option.some_or]
    split_ifs with heq
    · rw [heq, hheld]
    · rfl
  | none =>
    rw [Option.isSome_none, if_neg Bool.false_ne_true, Option.none_or]
    cases hstored : p.stored id with
    | some stored => exact Table.lookup_insert_if held id id' stored
    | none =>
      split_ifs with heq
      · rw [heq, hheld]
      · rfl

theorem lookup_ensureCertificate (p : Pass) (n : Nat) (service : AssignedService)
    (held : Table Uuid Held) (id : Uuid) :
    (ensureCertificate p n service held).lookup id =
      if id = service.id then certificateFor p n service (held.lookup service.id)
      else held.lookup id := by
  have hown : (loadStored p held service.id).lookup service.id =
      (held.lookup service.id).or (p.stored service.id) := by
    rw [lookup_loadStored, if_pos rfl]
  unfold ensureCertificate certificateFor
  dsimp only
  rw [hown]
  generalize (match (held.lookup service.id).or (p.stored service.id) with
    | some h => !Text.eqIgnoreAsciiCase h.fqdn service.fqdn ||
      renewalDue h.issuedAt h.notAfter p.now
    | none => true) = due
  cases due with
  | false => exact lookup_loadStored p held service.id id
  | true =>
    cases p.requests n with
    | none => exact lookup_loadStored p held service.id id
    | some answer =>
      simp only [Bool.not_true, Bool.false_eq_true, if_false, Table.lookup_insert_if,
        lookup_loadStored]
      split_ifs
      · rfl
      · rfl

variable {p : Pass} {services : List AssignedService} {table : Table String Route} {channels : Nat}

/-- Services of other ids change nothing for an id. -/
theorem prepare_other {id : Uuid} (hid : ∀ service ∈ services, service.id ≠ id) (n : Nat)
    (held : Table Uuid Held) (probes : Table Uuid Bool) :
    (prepare p n services held probes).1.lookup id = held.lookup id ∧
      (prepare p n services held probes).2.lookup id = probes.lookup id := by
  induction services generalizing n held probes with
  | nil => exact ⟨rfl, rfl⟩
  | cons service services ih =>
    obtain ⟨hservice, hservices⟩ := List.forall_mem_cons.mp hid
    have hne : id ≠ service.id := Ne.symm hservice
    unfold prepare
    split_ifs
    · obtain ⟨hheld, hprobes⟩ := ih hservices (n + 1) (ensureCertificate p n service held)
        (probes.insert service.id (probeTarget service (p.answers n)))
      rw [hheld, hprobes, lookup_ensureCertificate, Table.lookup_insert_if, if_neg hne, if_neg hne]
      exact ⟨rfl, rfl⟩
    · obtain ⟨hheld, hprobes⟩ := ih hservices (n + 1) held (probes.insert service.id false)
      rw [hheld, hprobes, Table.lookup_insert_if, if_neg hne]
      exact ⟨rfl, rfl⟩

/-- Where ids differ, every service gets its own certificate and probe, if its port is served. -/
theorem prepare_at {front back : List AssignedService} {service : AssignedService}
    (hnodup : ((front ++ service :: back).map AssignedService.id).Nodup) (n : Nat)
    (held : Table Uuid Held) (probes : Table Uuid Bool) :
    let result := prepare p n (front ++ service :: back) held probes
    let served := p.state.serveServicesPorts.contains service.port
    result.1.lookup service.id =
        (if served then certificateFor p (n + front.length) service (held.lookup service.id)
          else held.lookup service.id) ∧
      result.2.lookup service.id =
        some (served && probeTarget service (p.answers (n + front.length))) := by
  induction front generalizing n held probes with
  | nil =>
    have hback : ∀ other ∈ back, other.id ≠ service.id := by
      intro other hother heq
      have hnot := (List.nodup_cons.mp hnodup).1
      exact hnot (heq ▸ List.mem_map_of_mem hother)
    simp only [List.nil_append, List.length_nil, Nat.add_zero, prepare]
    split_ifs with hserved
    · obtain ⟨hheld, hprobes⟩ := prepare_other hback (n + 1) (ensureCertificate p n service held)
        (probes.insert service.id (probeTarget service (p.answers n)))
      rw [hheld, hprobes, lookup_ensureCertificate, Table.lookup_insert_if, if_pos rfl, if_pos rfl,
        hserved]
      exact ⟨rfl, rfl⟩
    · obtain ⟨hheld, hprobes⟩ := prepare_other hback (n + 1) held (probes.insert service.id false)
      have hnot : p.state.serveServicesPorts.contains service.port = false := by simpa using hserved
      rw [hheld, hprobes, Table.lookup_insert_if, if_pos rfl, hnot]
      exact ⟨rfl, rfl⟩
  | cons other front ih =>
    -- the first service has another id, so it leaves this one's entries alone
    obtain ⟨hother, hrest⟩ := List.nodup_cons.mp hnodup
    have hne : service.id ≠ other.id := by
      intro heq
      exact hother (heq ▸ List.mem_map_of_mem (List.mem_append_right _ List.mem_cons_self))
    have hplace : n + 1 + front.length = n + (other :: front).length := by
      rw [List.length_cons]
      omega
    have hkept : (ensureCertificate p n other held).lookup service.id = held.lookup service.id := by
      rw [lookup_ensureCertificate, if_neg hne]
    simp only [List.cons_append, prepare]
    rw [← hplace]
    by_cases hport : p.state.serveServicesPorts.contains other.port
    · rw [if_pos hport]
      have hrec := ih hrest (n + 1) (ensureCertificate p n other held)
        (probes.insert other.id (probeTarget other (p.answers n)))
      rwa [hkept] at hrec
    · rw [if_neg hport]
      exact ih hrest (n + 1) held _

/-! ## What routes become -/

/-- A wanted route comes from a service of that name. -/
theorem mem_desired {held : Table Uuid Held} {probes : Table Uuid Bool}
    {routes : Table String Desired} {name : String} {d : Desired}
    (h : (desired p held probes services routes).lookup name = some d) :
    routes.lookup name = some d ∨ ∃ service ∈ services,
      name = Text.toAsciiLowercase service.fqdn ∧ wanted p held probes service = some d := by
  induction services generalizing routes with
  | nil => exact .inl h
  | cons service services ih =>
    rcases ih h with hlookup | ⟨other, hother, hname, hwanted⟩
    · cases hw : wanted p held probes service with
      | none =>
        rw [hw] at hlookup
        exact .inl hlookup
      | some d' =>
        rw [hw, Table.lookup_insert_if] at hlookup
        split_ifs at hlookup with heq
        · exact .inr ⟨service, List.mem_cons_self, heq, hw.trans hlookup⟩
        · exact .inl hlookup
    · exact .inr ⟨other, List.mem_cons_of_mem service hother, hname, hwanted⟩

/-- Channels are below the count, and no two routes share one. -/
structure Distinct (table : Table String Route) (channels : Nat) : Prop where
  below : ∀ {name route}, table.lookup name = some route → route.closed < channels
  injective : ∀ {name name' route route'}, table.lookup name = some route →
    table.lookup name' = some route' → route.closed = route'.closed → name = name'

theorem Distinct.insert (h : Distinct table channels) (name : String) (d : Desired) :
    Distinct (table.insert name (d.route channels)) (channels + 1) := by
  have hcases : ∀ {n r}, (table.insert name (d.route channels)).lookup n = some r →
      (n = name ∧ r.closed = channels) ∨ table.lookup n = some r := by
    intro n r hlookup
    rw [Table.lookup_insert_if] at hlookup
    split_ifs at hlookup with heq
    · exact .inl ⟨heq, by rw [← Option.some.inj hlookup]; rfl⟩
    · exact .inr hlookup
  constructor
  · intro n r hlookup
    rcases hcases hlookup with ⟨-, hclosed⟩ | hold
    · omega
    · have := h.below hold
      omega
  · intro n n' r r' hlookup hlookup' hclosed
    rcases hcases hlookup with ⟨hn, hr⟩ | hold
    · rcases hcases hlookup' with ⟨hn', -⟩ | hold'
      · rw [hn, hn']
      · have := h.below hold'
        omega
    · rcases hcases hlookup' with ⟨-, hr'⟩ | hold'
      · have := h.below hold
        omega
      · exact h.injective hold hold' hclosed

theorem Distinct.sub {table' : Table String Route} (h : Distinct table channels)
    (hsub : Table.Sub table' table) : Distinct table' channels where
  below hlookup := h.below (hsub _ _ hlookup)
  injective hlookup hlookup' := h.injective (hsub _ _ hlookup) (hsub _ _ hlookup')

/-- Installing keeps what is there and adds wanted routes with new channels. -/
theorem install_spec (entries : List (Sigma fun _ : String => Desired))
    (h : Distinct table channels) :
    let result := install entries table channels
    Distinct result.1 result.2 ∧ channels ≤ result.2 ∧
      ∀ name route, result.1.lookup name = some route → table.lookup name = some route ∨
        ∃ d k, ⟨name, d⟩ ∈ entries ∧ channels ≤ k ∧ route = d.route k := by
  induction entries generalizing table channels with
  | nil => exact ⟨h, le_rfl, fun name route hlookup => .inl hlookup⟩
  | cons entry entries ih =>
    obtain ⟨name, d⟩ := entry
    simp only [install]
    split_ifs with hfree
    · obtain ⟨hdistinct, hle, hroutes⟩ := ih h
      refine ⟨hdistinct, hle, fun n r hlookup => ?_⟩
      rcases hroutes n r hlookup with hold | ⟨d', k, hmem, hk, rfl⟩
      · exact .inl hold
      · exact .inr ⟨d', k, List.mem_cons_of_mem _ hmem, hk, rfl⟩
    · obtain ⟨hdistinct, hle, hroutes⟩ := ih (h.insert name d)
      refine ⟨hdistinct, by omega, fun n r hlookup => ?_⟩
      rcases hroutes n r hlookup with hold | ⟨d', k, hmem, hk, rfl⟩
      · rw [Table.lookup_insert_if] at hold
        split_ifs at hold with heq
        · refine .inr ⟨d, channels, ?_, le_rfl, (Option.some.inj hold).symm⟩
          rw [heq]
          exact List.mem_cons_self
        · exact .inl hold
      · exact .inr ⟨d', k, List.mem_cons_of_mem _ hmem, by omega, rfl⟩

/-- After `apply_routes` every route is an old one that fits what is wanted for its name, or
what is wanted for its name on a new channel. -/
theorem applyRoutes_spec {s : Runtime} (h : Distinct s.table s.channels)
    (routes : Table String Desired) :
    Distinct (applyRoutes s routes).table (applyRoutes s routes).channels ∧
      s.channels ≤ (applyRoutes s routes).channels ∧
      ∀ name route, (applyRoutes s routes).table.lookup name = some route →
        ∃ d, routes.lookup name = some d ∧
          ((s.table.lookup name = some route ∧ route.fits d) ∨
            ∃ k, s.channels ≤ k ∧ route = d.route k) := by
  have hkept := h.sub (Table.retain_sub s.table fun name route =>
    (routes.lookup name).any fun d => route.fits d)
  obtain ⟨hdistinct, hle, hroutes⟩ := install_spec routes.entries hkept
  refine ⟨hdistinct, hle, fun name route hlookup => ?_⟩
  rcases hroutes name route hlookup with hold | ⟨d, k, hmem, hk, rfl⟩
  · obtain ⟨hold, hfits⟩ := Table.lookup_retain_eq_some.mp hold
    cases hd : routes.lookup name with
    | none =>
      rw [hd] at hfits
      cases hfits
    | some d =>
      rw [hd] at hfits
      exact ⟨d, rfl, .inl ⟨hold, hfits⟩⟩
  · exact ⟨d, Table.lookup_eq_some_iff.mpr hmem, .inr ⟨k, hk, rfl⟩⟩

end BlakTail.Services
