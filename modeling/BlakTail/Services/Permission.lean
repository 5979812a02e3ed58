import BlakTail.Services.Runtime

/-!
# Services and Their Permission

What a route may be installed with: sources its access entry lists now, a port the operator
lists now, and a certificate issued for its name that has not expired.
-/

namespace BlakTail.Services

open Foundation Control Runtime

/-- Sources, port and certificate name of a route under a name agree with the node's state. -/
structure Granted (state : NodeState) (name : String) (route : Route) : Prop where
  sources : ∀ source ∈ route.allowed, ∃ entry ∈ state.serviceAccess,
    Text.eqIgnoreAsciiCase entry.fqdn name ∧ source ∈ entry.sources
  port : route.upstream.2 ∈ state.serveServicesPorts
  named : Text.eqIgnoreAsciiCase route.config.fqdn name

/-- The permission of one route at one pass. -/
structure Permitted (p : Pass) (name : String) (route : Route) : Prop where
  granted : Granted p.state name route
  unexpired : p.now < route.config.notAfter

/-! ## The condition -/

/-- What a pass of a serving node must meet; `cert` gives the certificate of a serial. -/
structure Pass.Meets (cert : String → Held) (s : Runtime) (p : Pass) : Prop where
  /-- When the list cannot be fetched, access and ports are those of the last pass. -/
  failed : p.answer = .failed → s.table.entries = [] ∨
    (p.state.serviceAccess = s.seen.serviceAccess ∧
      p.state.serveServicesPorts = s.seen.serveServicesPorts)
  /-- No id is listed twice. -/
  nodup : ∀ services, p.answer = .assigned services → (services.map AssignedService.id).Nodup
  /-- A request fails only where the certificate at hand, if any, is for the listed name. -/
  renamed : ∀ services, p.answer = .assigned services → ∀ n service, services[n]? = some service →
    service.port ∈ p.state.serveServicesPorts → p.requests n = none → ∀ h,
      (s.held.lookup service.id).or (p.stored service.id) = some h →
      Text.eqIgnoreAsciiCase h.fqdn service.fqdn
  stored : ∀ id h, p.stored id = some h → cert h.serial = h
  issued : ∀ services, p.answer = .assigned services → ∀ n service, services[n]? = some service →
    ∀ key issued, p.requests n = some (key, issued) →
      cert issued.serial = .issued service p.now key issued

/-- The condition on an event. -/
def Event.Meets (cert : String → Held) (s : Runtime) : Event → Prop
  | .pass p => p.state.serveServices → p.Meets cert s
  | .connect _ _ _ => True

/-! ## The invariant -/

/-- A route made of a certificate that its serial determines. -/
structure Route.Genuine (cert : String → Held) (route : Route) : Prop where
  serial : route.serial = route.config.serial
  notAfter : route.notAfter = route.config.notAfter
  determined : cert route.serial = route.config

/-- The invariant; a certificate is determined by its serial. -/
structure Runtime.Sound (cert : String → Held) (s : Runtime) : Prop where
  distinct : Distinct s.table s.channels
  held : ∀ id h, s.held.lookup id = some h → cert h.serial = h
  genuine : ∀ name route, s.table.lookup name = some route → route.Genuine cert
  granted : ∀ name route, s.table.lookup name = some route → Granted s.seen name route
  holding : ∀ name route, s.table.lookup name = some route → s.held.entries ≠ []
  below : ∀ c ∈ s.connections, c.route.closed < s.channels
  picked : ∀ c ∈ s.connections, ∀ name route, s.table.lookup name = some route →
    route.closed = c.route.closed → name = c.name ∧ route = c.route

section

variable {cert : String → Held} {s : Runtime} {p : Pass} {service : AssignedService}
  {services : List AssignedService} {held : Table Uuid Held}

/-- Dropping routes keeps the invariant, as long as certificates are held for those that stay. -/
theorem Runtime.Sound.shrink {s' : Runtime} (h : s.Sound cert) (hsub : Table.Sub s'.table s.table)
    (hchannels : s'.channels = s.channels) (hconnections : s'.connections = s.connections)
    (hheld : ∀ id held, s'.held.lookup id = some held → s.held.lookup id = some held)
    (hgranted : ∀ name route, s'.table.lookup name = some route → Granted s'.seen name route)
    (hholding : ∀ name route, s'.table.lookup name = some route → s'.held.entries ≠ []) :
    s'.Sound cert where
  distinct := hchannels ▸ h.distinct.sub hsub
  held id held hlookup := h.held id held (hheld id held hlookup)
  genuine name route hlookup := h.genuine name route (hsub _ _ hlookup)
  granted := hgranted
  holding := hholding
  below := by
    rw [hconnections, hchannels]
    exact h.below
  picked := by
    rw [hconnections]
    exact fun c hc name route hlookup => h.picked c hc name route (hsub _ _ hlookup)

theorem forgetAll_sound (h : s.Sound cert) (state : NodeState) :
    (forgetAll { s with seen := state }).Sound cert := by
  have hnone : ∀ name route,
      (forgetAll { s with seen := state }).table.lookup name ≠ some route :=
    nofun
  apply h.shrink
  · exact fun name route hlookup => absurd hlookup (hnone name route)
  · rfl
  · rfl
  · exact nofun
  · exact fun name route hlookup => absurd hlookup (hnone name route)
  · exact fun name route hlookup => absurd hlookup (hnone name route)

theorem dropExpired_sound (h : s.Sound cert) (hmeets : p.Meets cert s)
    (hfailed : p.answer = .failed) : (dropExpired { s with seen := p.state } p.now).Sound cert := by
  have hsub : Table.Sub (dropExpired { s with seen := p.state } p.now).table s.table :=
    Table.retain_sub s.table _
  have hsame : ∀ name route, s.table.lookup name = some route →
      Granted { p.state with } name route := by
    intro name route hlookup
    have hgranted := h.granted name route hlookup
    rcases hmeets.failed hfailed with hempty | ⟨haccess, hports⟩
    · rw [Table.lookup_eq_some_iff, hempty] at hlookup
      cases hlookup
    · exact ⟨haccess ▸ hgranted.sources, hports ▸ hgranted.port, hgranted.named⟩
  apply h.shrink hsub
  · rfl
  · rfl
  · exact fun id held hlookup => hlookup
  · exact fun name route hlookup => hsame name route (hsub _ _ hlookup)
  · exact fun name route hlookup => h.holding name route (hsub _ _ hlookup)

/-! ## A pass with a list -/

/-- What is held after a request: the certificate at hand, or the one issued. -/
theorem certificateFor_cases {n : Nat} {held : Option Held} {h : Held}
    (hfor : certificateFor p n service held = some h) :
    (held.or (p.stored service.id) = some h ∧
        (Text.eqIgnoreAsciiCase h.fqdn service.fqdn ∨ p.requests n = none)) ∨
      ∃ key issued, p.requests n = some (key, issued) ∧ h = .issued service p.now key issued := by
  unfold certificateFor at hfor
  cases hknown : held.or (p.stored service.id) with
  | none =>
    rw [hknown] at hfor
    cases hrequest : p.requests n with
    | none => simp [hrequest] at hfor
    | some answer =>
      simp only [hrequest, Bool.not_true, Bool.false_eq_true, if_false] at hfor
      exact .inr ⟨answer.1, answer.2, rfl, (Option.some.inj hfor).symm⟩
  | some known =>
    rw [hknown] at hfor
    dsimp only at hfor
    split_ifs at hfor with hdue
    · -- not due: the certificate at hand is for this name
      cases hfor
      simp only [Bool.not_eq_true', Bool.or_eq_false_iff, Bool.not_eq_false'] at hdue
      exact .inl ⟨rfl, .inl hdue.1⟩
    · cases hrequest : p.requests n with
      | none =>
        rw [hrequest] at hfor
        exact .inl ⟨hfor, .inr rfl⟩
      | some answer =>
        rw [hrequest] at hfor
        exact .inr ⟨answer.1, answer.2, rfl, (Option.some.inj hfor).symm⟩

/-- The certificates held once the services of a list are prepared. -/
theorem prepare_held (h : s.Sound cert) (hmeets : p.Meets cert s)
    (hlist : p.answer = .assigned services) (hsub : Table.Sub held s.held)
    (probes : Table Uuid Bool) (id : Uuid) (found : Held)
    (hlookup : (prepare p 0 services held probes).1.lookup id = some found) :
    cert found.serial = found := by
  by_cases hin : ∃ service ∈ services, service.id = id
  · obtain ⟨service, hservice, rfl⟩ := hin
    obtain ⟨front, back, rfl⟩ := List.append_of_mem hservice
    rw [(prepare_at (hmeets.nodup _ hlist) 0 held probes).1, Nat.zero_add] at hlookup
    split_ifs at hlookup
    · rcases certificateFor_cases hlookup with ⟨hknown, -⟩ | ⟨key, issued, hrequest, rfl⟩
      · rcases Option.or_eq_some_iff.mp hknown with hheld | ⟨-, hstored⟩
        · exact h.held _ _ (hsub _ _ hheld)
        · exact hmeets.stored _ _ hstored
      · exact hmeets.issued _ hlist front.length service (by simp) key issued hrequest
    · exact h.held _ _ (hsub _ _ hlookup)
  · rw [(prepare_other (by simpa using hin) 0 held probes).1] at hlookup
    exact h.held _ _ (hsub _ _ hlookup)

/-- Where a wanted route of a listed service comes from. -/
structure Wanted (p : Pass) (name : String) (d : Desired) (service : AssignedService) : Prop where
  name : name = Text.toAsciiLowercase service.fqdn
  config : Text.eqIgnoreAsciiCase d.config.fqdn service.fqdn
  allowed : d.allowed = allowedFor p.state service
  upstream : d.upstream.2 = service.port
  port : service.port ∈ p.state.serveServicesPorts
  serial : d.serial = d.config.serial
  notAfter : d.notAfter = d.config.notAfter
  unexpired : p.now < d.config.notAfter

theorem desired_wanted {d : Desired}
    (hmeets : p.Meets cert s) (hlist : p.answer = .assigned services)
    (hheld : ∀ service ∈ services, held.lookup service.id = s.held.lookup service.id)
    {name : String} :
    let prepared := prepare p 0 services held ∅
    (desired p prepared.1 prepared.2 services ∅).lookup name = some d →
      (∃ id, prepared.1.lookup id = some d.config) ∧ ∃ service, Wanted p name d service := by
  intro prepared hlookup
  rcases mem_desired hlookup with hnone | ⟨service, hservice, hname, hwanted⟩
  · exact absurd hnone (Option.some_ne_none d).symm
  obtain ⟨front, back, rfl⟩ := List.append_of_mem hservice
  have hprepared := prepare_at (p := p) (hmeets.nodup _ hlist) 0 held ∅
  obtain ⟨found, hfound, hwanted⟩ := Option.bind_eq_some_iff.mp hwanted
  rw [Nat.zero_add] at hprepared
  obtain ⟨hcertificate, hprobe⟩ := hprepared
  split_ifs at hwanted with hskip husable
  cases hwanted
  rw [show prepared.2.lookup service.id = _ from hprobe] at hskip
  simp only [Bool.or_eq_true, decide_eq_true_eq, bne_iff_ne, ne_eq, Option.getD_some,
    Bool.not_eq_true', not_or, Bool.not_eq_false, Bool.and_eq_true, not_le, not_not] at hskip
  obtain ⟨⟨hunexpired, -⟩, hserved, -⟩ := hskip
  have hport : service.port ∈ p.state.serveServicesPorts := by simpa using hserved
  refine ⟨⟨service.id, hfound⟩, service, hname, ?_, rfl, rfl, hport, rfl, rfl, hunexpired⟩
  rw [show prepared.1.lookup service.id = _ from hcertificate, if_pos hserved,
    hheld service hservice] at hfound
  rcases certificateFor_cases hfound with ⟨hknown, hnamed | hrequest⟩ | ⟨key, issued, -, rfl⟩
  · exact hnamed
  · exact hmeets.renamed _ hlist front.length service (by simp) hport hrequest _ hknown
  · exact Text.eqIgnoreAsciiCase_iff.mpr rfl

theorem allowedFor_listed {state : NodeState} {source : IpAddr}
    (h : source ∈ allowedFor state service) : ∃ entry ∈ state.serviceAccess,
      Text.eqIgnoreAsciiCase entry.fqdn service.fqdn ∧ source ∈ entry.sources := by
  unfold allowedFor at h
  cases hentry : (accessOf state service.id).filter fun entry =>
      Text.eqIgnoreAsciiCase entry.fqdn service.fqdn with
  | none => simp [hentry] at h
  | some entry =>
    rw [hentry] at h
    obtain ⟨hfind, hname⟩ := Option.filter_eq_some_iff.mp hentry
    exact ⟨entry, List.mem_reverse.mp (List.mem_of_find?_eq_some hfind), hname, h⟩

/-- A route that carries what is wanted is permitted. -/
theorem Wanted.permitted {d : Desired} {name : String} {route : Route} (h : Wanted p name d service)
    (hconfig : route.config = d.config) (hallowed : route.allowed = d.allowed)
    (hupstream : route.upstream = d.upstream) : Permitted p name route := by
  refine ⟨⟨fun source hsource => ?_, ?_, ?_⟩, ?_⟩
  · rw [hallowed, h.allowed] at hsource
    obtain ⟨entry, hentry, hfqdn, hlisted⟩ := allowedFor_listed hsource
    exact ⟨entry, hentry, h.name ▸ Text.eqIgnoreAsciiCase_lowercase hfqdn, hlisted⟩
  · rw [hupstream, h.upstream]
    exact h.port
  · rw [hconfig, h.name]
    exact Text.eqIgnoreAsciiCase_lowercase h.config
  · rw [hconfig]
    exact h.unexpired

theorem ensureListener_eq (s : Runtime) (p : Pass) :
    ∃ listener, ensureListener s p = { s with listener := listener } := by
  unfold ensureListener
  split_ifs
  · exact ⟨none, rfl⟩
  · exact ⟨s.listener, rfl⟩
  · exact ⟨some (bindAddrs p.state), rfl⟩
  · exact ⟨none, rfl⟩

/-- A pass with a list leaves permitted routes, and the invariant. -/
theorem reconcile_spec (h : s.Sound cert) (hmeets : p.Meets cert s)
    (hlist : p.answer = .assigned services) :
    let after := reconcile { s with seen := p.state } p services
    after.Sound cert ∧ ∀ name route, after.table.lookup name = some route →
      Permitted p name route := by
  let kept := s.held.retain fun id _ => services.any fun service => service.id = id
  let prepared := prepare p 0 services kept ∅
  let routes := desired p prepared.1 prepared.2 services ∅
  let base : Runtime := { s with seen := p.state, held := prepared.1 }
  have hsub : Table.Sub kept s.held := Table.retain_sub _ _
  have hkept : ∀ service ∈ services, kept.lookup service.id = s.held.lookup service.id := by
    intro service hservice
    have hlisted : services.any (fun other => other.id = service.id) :=
      List.any_eq_true.mpr ⟨service, hservice, by simp⟩
    refine Option.ext fun found => ?_
    rw [Table.lookup_retain_eq_some, hlisted]
    exact and_iff_left rfl
  obtain ⟨listener, hlistener⟩ := ensureListener_eq (applyRoutes base routes) p
  have hafter : reconcile { s with seen := p.state } p services =
      { applyRoutes base routes with listener := listener } := hlistener
  intro after
  obtain ⟨hdistinct, hle, hroutes⟩ := applyRoutes_spec (s := base) h.distinct routes
  -- whether kept or new, a route carries the certificate, the sources and the port wanted
  have hcarries : ∀ name route, (applyRoutes base routes).table.lookup name = some route →
      (∃ id, prepared.1.lookup id = some route.config) ∧ route.Genuine cert ∧
        Permitted p name route := by
    intro name route hlookup
    obtain ⟨d, hd, hroute⟩ := hroutes name route hlookup
    obtain ⟨⟨id, hid⟩, service, hwanted⟩ := desired_wanted hmeets hlist hkept hd
    have hcert : cert d.config.serial = d.config := prepare_held h hmeets hlist hsub ∅ id _ hid
    rcases hroute with ⟨hold, hfits⟩ | ⟨k, -, rfl⟩
    · have hgenuine := h.genuine name route hold
      simp only [Route.fits, Bool.and_eq_true, beq_iff_eq] at hfits
      obtain ⟨⟨hserial, hallowed⟩, hupstream⟩ := hfits
      have hconfig : route.config = d.config := by
        rw [← hgenuine.determined, hserial, hwanted.serial, hcert]
      exact ⟨⟨id, hconfig ▸ hid⟩, hgenuine, hwanted.permitted hconfig hallowed hupstream⟩
    · refine ⟨⟨id, hid⟩, ⟨hwanted.serial, hwanted.notAfter, ?_⟩, hwanted.permitted rfl rfl rfl⟩
      show cert d.serial = d.config
      rw [hwanted.serial, hcert]
  rw [show after = _ from hafter]
  refine ⟨⟨hdistinct, ?_, ?_, ?_, ?_, ?_, ?_⟩, ?_⟩
  · exact fun id found hfound => prepare_held h hmeets hlist hsub ∅ id found hfound
  · exact fun name route hlookup => (hcarries name route hlookup).2.1
  · exact fun name route hlookup => (hcarries name route hlookup).2.2.granted
  · intro name route hlookup hempty
    obtain ⟨id, hid⟩ := (hcarries name route hlookup).1
    rw [Table.lookup_eq_some_iff, show prepared.1.entries = [] from hempty] at hid
    cases hid
  · exact fun c hc => lt_of_lt_of_le (h.below c hc) hle
  · intro c hc name route hlookup hclosed
    obtain ⟨d, -, ⟨hold, -⟩ | ⟨k, hk, rfl⟩⟩ := hroutes name route hlookup
    · exact h.picked c hc name route hold hclosed
    · -- a new channel is above every channel a connection holds
      have hbelow := h.below c hc
      have hchannel : k = c.route.closed := hclosed
      have hk : s.channels ≤ k := hk
      omega
  · exact fun name route hlookup => (hcarries name route hlookup).2.2

/-! ## Every pass -/

/-- One pass: the invariant stays, and every route is permitted. -/
theorem manage_spec (h : s.Sound cert) (hmeets : Event.Meets cert s (.pass p)) :
    (s.manage p).Sound cert ∧ ∀ name route, (s.manage p).table.lookup name = some route →
      Permitted p name route := by
  have hforgotten : (forgetAll { s with seen := p.state }).Sound cert ∧
      ∀ name route, (forgetAll { s with seen := p.state }).table.lookup name = some route →
        Permitted p name route :=
    ⟨forgetAll_sound h p.state, nofun⟩
  unfold manage
  dsimp only
  split_ifs with hserving hheld
  · exact hforgotten
  · -- nothing is held, so there is no route either
    have hnone : ∀ name route, s.table.lookup name ≠ some route := by
      intro name route hlookup
      have hsome := h.holding name route hlookup
      simp [hsome] at hheld
    refine ⟨h.shrink (Table.Sub.refl _) rfl rfl (fun _ _ hlookup => hlookup) ?_ h.holding, ?_⟩
    · exact fun name route hlookup => absurd hlookup (hnone name route)
    · exact fun name route hlookup => absurd hlookup (hnone name route)
  · have hpass := hmeets (by simpa using hserving)
    split
    · next services hlist => exact reconcile_spec h hpass hlist
    · exact hforgotten
    · next hfailed =>
      have hsound := dropExpired_sound h hpass hfailed
      refine ⟨hsound, fun name route hlookup => ⟨hsound.granted name route hlookup, ?_⟩⟩
      obtain ⟨hold, hunexpired⟩ := Table.lookup_retain_eq_some.mp hlookup
      rw [← (h.genuine name route hold).notAfter]
      simpa using hunexpired

theorem connect_sound (h : s.Sound cert) (sni : String) (peer : IpAddr) (now : Int) :
    (s.connect sni peer now).Sound cert := by
  unfold connect
  dsimp only
  split_ifs
  · exact h
  · split
    · next route hlookup =>
      split_ifs
      · refine { h with below := ?_, picked := ?_ }
        · intro c hc
          rcases List.mem_cons.mp hc with rfl | hc
          · exact h.distinct.below hlookup
          · exact h.below c hc
        · intro c hc name other hother hclosed
          rcases List.mem_cons.mp hc with rfl | hc
          · obtain rfl := h.distinct.injective hother hlookup hclosed
            exact ⟨rfl, Option.some.inj (hother.symm.trans hlookup)⟩
          · exact h.picked c hc name other hother hclosed
      · exact h
    · exact h

theorem step_sound (s : Runtime) (e : Event) (hmeets : e.Meets cert s) (h : s.Sound cert) :
    (s.step e).Sound cert := by
  cases e with
  | pass p => exact (manage_spec h hmeets).1
  | connect sni peer now => exact connect_sound h sni peer now

theorem sound_initial : ({} : Runtime).Sound cert where
  distinct :=
    { below := nofun
      injective := nofun }
  held := nofun
  genuine := nofun
  granted := nofun
  holding := nofun
  below := nofun
  picked := nofun

/-- After every pass of a run whose passes all meet the condition, every installed route is
permitted, and every connection that still lives is through a route that is installed and
permitted. -/
theorem Runtime.routes_permitted (cert : String → Held) (events : List Event) (p : Pass)
    (hmeets : Along step (Event.Meets cert) {} (events ++ [.pass p])) :
    let s := run step {} (events ++ [.pass p])
    (∀ name route, s.table.lookup name = some route → Permitted p name route) ∧
      ∀ c ∈ s.connections, s.live c →
        s.table.lookup c.name = some c.route ∧ Permitted p c.name c.route := by
  obtain ⟨hbefore, hpass, -⟩ := along_append.mp hmeets
  have hsound := run_invariant_along step_sound hbefore sound_initial
  rw [run_append]
  obtain ⟨hafter, hroutes⟩ := manage_spec hsound hpass
  refine ⟨hroutes, fun c hc hlive => ?_⟩
  obtain ⟨⟨name, route⟩, hentry, hclosed⟩ := List.any_eq_true.mp hlive
  have hlookup := Table.lookup_eq_some_iff.mpr hentry
  obtain ⟨rfl, rfl⟩ := hafter.picked c hc name route hlookup (by simpa using hclosed)
  exact ⟨hlookup, hroutes _ _ hlookup⟩

end

/-! ## An outage and a rename -/

/-- A node that serves one name to one source. -/
def appState : NodeState where
  serveServices := true
  serviceAccess := [⟨1, "app.svc.blaktail", ["100.64.0.5"]⟩]
  serveServicesPorts := [8080]
  interfaceAddresses := ["100.64.0.2/32"]

def appService : AssignedService := ⟨1, "app.svc.blaktail", 8080, "http"⟩

def appCertificate : IssuedCertificate := ⟨"certificate", "01", 86500⟩

/-- The pass that installs the route. -/
def appPass : Pass where
  state := appState
  now := 100
  answer := .assigned [appService]
  stored _ := none
  requests _ := some ("key", appCertificate)
  answers _ := true
  usable _ := true
  binds := true

/-- The route is installed and its source connects. -/
def appEvents : List Event :=
  [.pass appPass, .connect "app.svc.blaktail." (.v4 0x64400005#32) 200]

/-- Through an outage that changes nothing else, the route and its connection stay. -/
theorem routes_permitted_outage :
    let p : Pass := { appPass with now := 300, answer := .failed }
    let s := run step {} (appEvents ++ [.pass p])
    s.connections.any s.live ∧
      (∀ name route, s.table.lookup name = some route → Permitted p name route) ∧
      ∀ c ∈ s.connections, s.live c →
        s.table.lookup c.name = some c.route ∧ Permitted p c.name c.route := by
  intro p s
  refine ⟨by decide +kernel, routes_permitted
    (fun _ => .issued appService 100 "key" appCertificate) appEvents p ⟨?_, trivial, ?_, trivial⟩⟩
  · intro _
    refine ⟨?_, ?_, ?_, ?_, ?_⟩
    · exact nofun
    · rintro services ⟨⟩
      decide
    · rintro services ⟨⟩ n service hservice hport ⟨⟩
    · rintro id h ⟨⟩
    · rintro services ⟨⟩ n service hservice key issued ⟨⟩
      obtain ⟨-, rfl⟩ : n = 0 ∧ appService = service := by
        cases n with
        | zero => exact ⟨rfl, Option.some.inj hservice⟩
        | succ n => exact nomatch hservice
      rfl
  · intro _
    refine ⟨?_, ?_, ?_, ?_, ?_⟩
    · exact fun _ => .inr ⟨rfl, rfl⟩
    · exact nofun
    · exact nofun
    · rintro id h ⟨⟩
    · exact nofun

/-- A source that lost its access stays connected through a pass whose list cannot be fetched,
and a renamed service whose certificate request fails is served under its new name with the
certificate of the old one. -/
theorem routes_outlive_permission :
    (let p : Pass := { appPass with
        state := { appState with serviceAccess := [] }, now := 300, answer := .failed }
      let s := run step {} (appEvents ++ [.pass p])
      s.connections.any s.live ∧
        ∃ route, s.table.lookup "app.svc.blaktail" = some route ∧
          ¬Permitted p "app.svc.blaktail" route) ∧
      (let p : Pass := { appPass with
          state := { appState with serviceAccess := [⟨1, "web.svc.blaktail", ["100.64.0.5"]⟩] }
          now := 300
          answer := .assigned [{ appService with fqdn := "web.svc.blaktail" }]
          requests := fun _ => none }
        let s := run step {} (appEvents ++ [.pass p])
        ∃ route, s.table.lookup "web.svc.blaktail" = some route ∧
          ¬Permitted p "web.svc.blaktail" route) := by
  have hconfig : Text.eqIgnoreAsciiCase "app.svc.blaktail" "web.svc.blaktail" = false := by decide
  refine ⟨⟨by decide +kernel, _, rfl, fun h => ?_⟩, _, rfl, fun h => ?_⟩
  · obtain ⟨entry, hentry, -⟩ := h.granted.sources (.v4 0x64400005#32) (by decide +kernel)
    cases hentry
  · exact Bool.false_ne_true (hconfig.symm.trans h.granted.named)

end BlakTail.Services
