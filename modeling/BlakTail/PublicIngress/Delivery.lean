import BlakTail.Posture.Deadline
import BlakTail.PublicIngress.Routes

/-!
# What an Ingress Is Told to Serve

The coordinator decides for each ingress device which routes are live: a decision that depends
on the stored data and on the clock, through credentials that expire and through posture and SSH
checks that lapse.  The ingress asks again and again, and is told that nothing changed by the
control revision alone.
-/

namespace BlakTail.PublicIngress

open Foundation Access Posture

/-! ## Stored data -/

structure NodeRow where
  facts : NodeFacts
  allowedIps : List String := []
  capabilities : List String := []
  revokedAt : Option Int := none
  deletedAt : Option Int := none
  suspendedAt : Option Int := none

structure ServiceRow where
  id : String
  targetNode : String
  port : Nat
  protocol : String
  enabled : Bool

structure StoredRoute where
  id : String
  fqdn : String
  targetServiceId : Option String
  targetNodeId : String
  targetPort : Nat
  tlsMode : String
  authMode : String
  allowedEmailDomains : List String
  allowedSourceCidrs : List String
  rateLimitPerMinute : Int
  maxBodyBytes : Int
  maxConnections : Int
  logRetentionDays : Int
  enabled : Bool
  emergencyDisabledAt : Option Int
  revision : Int

/-- An organisation's data as stored, with what was validated before it was stored. -/
structure Store where
  enabled : Bool
  acl : Acl
  checks : List (String × StoredCheck)
  nodes : List NodeRow
  services : List ServiceRow
  routes : List StoredRoute
  checks_valid : ∀ entry ∈ checks, entry.2.definition.validate = .ok ()
  facts_dated : ∀ node ∈ nodes, node.facts.Dated
  acl_valid : ∃ stored, acl.validate stored = .ok ()

/-! ## The decision -/

def CAP_SSH_USERS : String := "ssh-users"

/-- The first overlay IPv4 address. -/
def overlayIpv4 (allowedIps : List String) : Option String :=
  allowedIps.findSome? fun cidr =>
    let (address, bits) := (Text.splitOnce '/' cidr).getD (cidr, "32")
    if bits = "32" then
      match IpAddr.parse address with
      | some (.v4 ip) => some (IpAddr.v4 ip).toText
      | _ => none
    else none

/-- What `device_flow` finds out for its decision. -/
structure DeviceFlow where
  sourceMapIncludesDestination : Bool
  destinationMapIncludesSource : Bool
  policyAllows : Bool
  admitted : Bool

def DeviceFlow.paired (flow : DeviceFlow) : Bool :=
  flow.sourceMapIncludesDestination && flow.destinationMapIncludesSource

def DeviceFlow.decision (flow : DeviceFlow) : Bool :=
  flow.policyAllows && flow.admitted && flow.paired

def deviceFlow (acl : Acl) (now : Int) (source destination : Subject) (sshUsersEnforced : Bool)
    (protocol : Option AclProtocol) (port : Option Nat) : DeviceFlow where
  sourceMapIncludesDestination := acl.allows now source destination
  destinationMapIncludesSource := acl.allows now destination source
  policyAllows := acl.allowsFlow now source destination port protocol none
  admitted := ingressAdmits (acl.peerIngressFor now source destination sshUsersEnforced)
    protocol port

inductive RouteState where
  | organisationDisabled
  | emergencyDisabled
  | disabled
  | targetUnsupported
  | targetUnavailable
  | targetIsIngress
  | blockedByPolicy
  | active
  deriving DecidableEq

namespace Store

variable (store : Store)

/-- The rows posture is evaluated for. -/
def known : List NodeRow :=
  store.nodes.filter fun node => node.revokedAt.isNone && node.deletedAt.isNone

/-- The organisation as posture checks and policy see it. -/
def org : Organisation where
  checks := store.checks
  facts := store.known.map NodeRow.facts
  acl := store.acl
  checks_valid := store.checks_valid
  facts_dated := by
    intro device hdevice
    obtain ⟨node, hnode, rfl⟩ := List.mem_map.mp hdevice
    exact store.facts_dated node (List.mem_filter.mp hnode).1
  acl_valid := store.acl_valid

/-- Active devices: not revoked, deleted, suspended or expired. -/
def active (now : Int) : List NodeRow :=
  store.nodes.filter fun node => node.revokedAt.isNone && node.deletedAt.isNone &&
    node.suspendedAt.isNone && now < node.facts.credentialExpiresAt

/-- The device, port and address a route really reaches, or why it cannot be resolved. -/
def target (now : Int) (route : StoredRoute) : Except RouteState (String × Nat × String) := do
  let (node, port) ← match route.targetServiceId with
    | some service =>
      match store.services.find? fun row => row.enabled && row.id = service with
      | some row =>
        if row.protocol = "http" then .ok (row.targetNode, row.port) else .error .targetUnsupported
      | none => .error .targetUnavailable
    | none => .ok (route.targetNodeId, route.targetPort)
  match (store.active now).find? fun row => row.facts.id = node with
  | some row =>
    match overlayIpv4 row.allowedIps with
    | some address => .ok (node, port, address)
    | none => .error .targetUnavailable
  | none => .error .targetUnavailable

/-- The delivery state of a route for one ingress device. -/
def state (now : Int) (route : StoredRoute) (ingress : String) : RouteState :=
  if !store.enabled then .organisationDisabled
  else if route.emergencyDisabledAt.isSome then .emergencyDisabled
  else if !route.enabled then .disabled
  else
    match store.target now route with
    | .error state => state
    | .ok (node, port, _) =>
      if node = ingress then .targetIsIngress
      else
        match store.known.find? (·.facts.id = ingress), store.known.find? (·.facts.id = node) with
        | some source, some destination =>
          let flow := deviceFlow store.acl now (store.org.subject now source.facts)
            (store.org.subject now destination.facts)
            (destination.capabilities.contains CAP_SSH_USERS) (some .tcp) (some port)
          if flow.decision then .active else .blockedByPolicy
        | _, _ => .targetUnavailable

/-- The decision at a time. -/
def deliverable (now : Int) (ingress : String) : List RouteConfig :=
  store.routes.filterMap fun route =>
    if store.state now route ingress ≠ .active then none
    else
      match store.target now route with
      | .error _ => none
      | .ok (_, port, address) => some
        { id := route.id
          fqdn := route.fqdn
          targetAddress := address
          targetPort := port
          tlsMode := route.tlsMode
          authMode := route.authMode
          allowedEmailDomains := route.allowedEmailDomains
          allowedSourceCidrs := route.allowedSourceCidrs
          rateLimitPerMinute := route.rateLimitPerMinute
          maxBodyBytes := route.maxBodyBytes
          maxConnections := route.maxConnections
          logRetentionDays := route.logRetentionDays
          revision := route.revision }

end Store

/-! ## The feed -/

def MAX_CONFIG_WAIT_SECS : Nat := 20

/-- The organisation, the clock and one ingress. -/
structure Feed where
  store : Store
  revision : Nat
  now : Int
  /-- The revision the ingress asks with; 0 when it holds nothing. -/
  since : Nat := 0
  served : List RouteConfig := []
  /-- When the routes served were decided on. -/
  deliveredAt : Int := 0
  /-- When the last event was a successful answer. -/
  answeredAt : Option Int := none

inductive Feed.Event where
  /-- A change of stored data, with the increase of the revision it commits. -/
  | write (store : Store) (more : Nat)
  | pass (secs : Nat)
  /-- One turn of the loop of `node_config`, `elapsed` seconds after the request. -/
  | turn (wait elapsed : Nat)
  /-- The coordinator refuses the node: 401 or 403. -/
  | refused
  | failed

namespace Feed

variable (ingress : String) (s : Feed)

/-- An ingress that holds nothing. -/
def start (store : Store) (revision : Nat) (now : Int) : Feed where
  store := store
  revision := revision
  now := now

/-- `node_config` would answer with a configuration. -/
def changed : Bool := s.since = 0 || s.revision != s.since

/-- Writes, time, polls of one ingress and what it then serves. -/
def step : Event → Feed
  | .write store more =>
    { s with store := store, revision := s.revision + 1 + more, answeredAt := none }
  | .pass secs => { s with now := s.now + secs, answeredAt := none }
  | .turn wait elapsed =>
    if s.changed then
      { s with
        since := s.revision
        served := s.store.deliverable s.now ingress
        deliveredAt := s.now
        answeredAt := some s.now }
    else if min wait MAX_CONFIG_WAIT_SECS ≤ elapsed then { s with answeredAt := some s.now }
    else { s with answeredAt := none }
  | .refused => { s with since := 0, served := [], answeredAt := none }
  | .failed => { s with answeredAt := none }

end Feed

/-! ## While nothing expires -/

namespace Store

variable {store : Store} {l u : Int} (hlu : l ≤ u) (hquiet : store.org.Quiet l u)

include hlu hquiet

theorem active_quiet : store.active u = store.active l := by
  refine List.filter_congr fun node hnode => ?_
  cases hgone : node.revokedAt.isNone && node.deletedAt.isNone with
  | false => simp only [Bool.false_and]
  | true =>
    -- a row that is neither revoked nor deleted is known, and its credential did not expire
    have hknown : node.facts ∈ store.org.facts :=
      List.mem_map_of_mem (List.mem_filter.mpr ⟨hnode, hgone⟩)
    have hexpiry := hquiet.expiry node.facts hknown
    have hsame : u < node.facts.credentialExpiresAt ↔ l < node.facts.credentialExpiresAt := by omega
    simp only [hsame]

theorem target_quiet (route : StoredRoute) : store.target u route = store.target l route := by
  unfold target
  rw [active_quiet hlu hquiet]

theorem deviceFlow_quiet (source destination : NodeFacts) (sshUsersEnforced : Bool)
    (protocol : Option AclProtocol) (port : Option Nat) :
    deviceFlow store.acl u (store.org.subject u source) (store.org.subject u destination)
        sshUsersEnforced protocol port =
      deviceFlow store.acl l (store.org.subject l source) (store.org.subject l destination)
        sshUsersEnforced protocol port := by
  have hresults := Organisation.results_uncrossed hlu hquiet
  have hgrant := Organisation.ingress_of_results hresults
  have hflow := Organisation.allowsFlow_of_results hresults source destination port protocol none
  have hallows : ∀ a b : NodeFacts,
      store.acl.allows u (store.org.subject u a) (store.org.subject u b) =
        store.acl.allows l (store.org.subject l a) (store.org.subject l b) := by
    intro a b
    have hpair := hgrant a b true
    unfold Organisation.ingress at hpair
    unfold Acl.allows
    rw [show store.acl = store.org.acl from rfl, hpair]
  have hcompiled := hgrant source destination sshUsersEnforced
  unfold Organisation.ingress at hcompiled
  unfold deviceFlow
  rw [hallows, hallows, show store.acl = store.org.acl from rfl, hcompiled, hflow]

theorem state_quiet (route : StoredRoute) (ingress : String) :
    store.state u route ingress = store.state l route ingress := by
  unfold state
  simp only [target_quiet hlu hquiet, deviceFlow_quiet hlu hquiet]

/-- While no credential expires and no check or SSH grant can lapse, the decision stands. -/
theorem deliverable_quiet (ingress : String) :
    store.deliverable u ingress = store.deliverable l ingress := by
  unfold deliverable
  simp only [target_quiet hlu hquiet, state_quiet hlu hquiet]

end Store

/-! ## Every run -/

namespace Feed

/-- While the ingress asks with the current revision, nothing expires after its delivery. -/
def Event.quiet (s : Feed) : Event → Prop
  | .turn _ _ => s.since = s.revision → s.store.org.Quiet s.deliveredAt s.now
  | _ => True

instance (s : Feed) : (event : Event) → Decidable (event.quiet s)
  | .turn .. =>
    inferInstanceAs (Decidable (s.since = s.revision → s.store.org.Quiet s.deliveredAt s.now))
  | .write .. | .pass _ | .refused | .failed => isTrue trivial

/-- A delivery with the current revision was decided on the current data. -/
structure Sound (ingress : String) (s : Feed) : Prop where
  since : s.since ≤ s.revision
  delivered : s.since ≠ 0 → s.deliveredAt ≤ s.now
  current : s.since ≠ 0 → s.since = s.revision →
    s.served = s.store.deliverable s.deliveredAt ingress
  answered : ∀ t, s.answeredAt = some t → s.served = s.store.deliverable t ingress

theorem Sound.turn {ingress : String} {s : Feed} (h : s.Sound ingress) (wait elapsed : Nat)
    (hquiet : (Event.turn wait elapsed).quiet s) :
    (s.step ingress (.turn wait elapsed)).Sound ingress := by
  rw [step]
  split_ifs with hchanged hwait
  · -- a configuration is decided on now
    exact ⟨le_rfl, fun _ => le_rfl, fun _ _ => rfl, fun t ht => by cases ht; rfl⟩
  · -- 204: the revision is the one of the delivery
    rw [changed, Bool.or_eq_true, not_or] at hchanged
    have hzero : s.since ≠ 0 := by simpa using hchanged.1
    have hsince : s.since = s.revision := by
      have hsame := hchanged.2
      rw [bne_iff_ne, not_not] at hsame
      exact hsame.symm
    refine ⟨h.since, h.delivered, h.current, fun t ht => ?_⟩
    cases ht
    show s.served = s.store.deliverable s.now ingress
    rw [Store.deliverable_quiet (h.delivered hzero) (hquiet hsince)]
    exact h.current hzero hsince
  · exact ⟨h.since, h.delivered, h.current, nofun⟩

/-- No quiet event breaks what the feed holds. -/
theorem Sound.step {ingress : String} {s : Feed}
    (event : Event) (hquiet : event.quiet s) (h : s.Sound ingress) :
    (s.step ingress event).Sound ingress := by
  cases event with
  | write store more =>
    rw [Feed.step]
    refine ⟨?_, h.delivered, fun _ heq => ?_, nofun⟩
    · exact h.since.trans (by dsimp only; omega)
    · -- the revision has moved past the one of the delivery
      have hle := h.since
      dsimp only at heq
      omega
  | pass secs =>
    rw [Feed.step]
    refine ⟨h.since, fun hzero => ?_, h.current, nofun⟩
    have hle := h.delivered hzero
    dsimp only
    omega
  | turn wait elapsed => exact h.turn wait elapsed hquiet
  | refused =>
    exact ⟨Nat.zero_le _, fun hzero => absurd rfl hzero, fun hzero => absurd rfl hzero,
      nofun⟩
  | failed =>
    exact ⟨h.since, h.delivered, h.current, nofun⟩

/-- In every run in which nothing expires between a delivery and its confirmations, after each
successful answer the ingress serves what is deliverable at that time. -/
theorem serves_current (ingress : String) (store : Store) (revision : Nat) (now : Int)
    (events : List Event)
    (hquiet : Along (step ingress) (fun s event => event.quiet s) (start store revision now) events)
    (t : Int) (ht : (run (step ingress) (start store revision now) events).answeredAt = some t) :
    (run (step ingress) (start store revision now) events).served =
      (run (step ingress) (start store revision now) events).store.deliverable t ingress := by
  have h : (run (step ingress) (start store revision now) events).Sound ingress := by
    refine run_invariant_along (fun s event hq hs => hs.step event hq) hquiet ?_
    exact ⟨Nat.zero_le _, fun hzero => absurd rfl hzero, fun hzero => absurd rfl hzero,
      nofun⟩
  exact h.answered t ht

/-! ### A target whose credential expires -/

def edge : NodeRow where
  facts := { id := "edge", tags := [.store], createdAt := 100, credentialExpiresAt := 9000 }

def till : NodeRow where
  facts := { id := "till", tags := [.store], createdAt := 100, credentialExpiresAt := 2000 }
  allowedIps := ["100.64.0.2/32"]

/-- The till's web page is public. -/
def menu : StoredRoute where
  id := "menu"
  fqdn := "menu.example.org"
  targetServiceId := none
  targetNodeId := "till"
  targetPort := 8080
  tlsMode := "manual"
  authMode := "none"
  allowedEmailDomains := []
  allowedSourceCidrs := []
  rateLimitPerMinute := 60
  maxBodyBytes := 1024
  maxConnections := 8
  logRetentionDays := 7
  enabled := true
  emergencyDisabledAt := none
  revision := 1

def cafe : Store where
  enabled := true
  acl := {}
  checks := []
  nodes := [edge, till]
  services := []
  routes := [menu]
  checks_valid := by decide
  facts_dated := by
    simp only [List.forall_mem_cons]
    have hdated : Dated 100 := ⟨by decide, by decide⟩
    exact ⟨dated_of_bare hdated hdated rfl, dated_of_bare hdated hdated rfl, by simp⟩
  acl_valid := ⟨0, by decide⟩

/-- The page is delivered at 1000 and confirmed at 1900, before the till's credential expires. -/
theorem serves_current_before_expiry :
    let events : List Event := [.turn 20 0, .pass 900, .turn 20 20]
    let after := run (step "edge") (start cafe 1 1000) events
    after.served.map RouteConfig.id = ["menu"] ∧
      after.served = after.store.deliverable 1900 "edge" := by
  intro events after
  exact ⟨by decide +kernel, serves_current "edge" cafe 1 1000 events (by decide +kernel) 1900
    (by decide +kernel)⟩

/-- At 2500 the till's credential has expired and nothing is deliverable, but the revision has not
moved: the poll is answered 204, and the page stays public. -/
theorem confirms_expired_target :
    let events : List Event := [.turn 20 0, .pass 1500, .turn 20 20]
    let after := run (step "edge") (start cafe 1 1000) events
    after.answeredAt = some 2500 ∧ after.served.map RouteConfig.id = ["menu"] ∧
      after.store.deliverable 2500 "edge" = [] := by
  decide +kernel

end Feed

end BlakTail.PublicIngress
