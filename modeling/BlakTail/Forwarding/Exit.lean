import BlakTail.Forwarding.Reach

/-!
# Exit Clients and Denied Hosts

Three consequences of `forwards_iff`.

- Choosing the router as exit node keeps what a client could reach exactly where no carried
  prefix without a grant, and no denied host of the exit route, covers the destination:
  `chosen_forwards_iff`.
- With an exit route, what the router carries is reached by grants and host rules alone:
  `exit_client_stays_out`.
- A host deny rule wins where its host lies in a given prefix and the packet is of a protocol
  that services can name: `host_deny_wins_iff`.
-/

namespace BlakTail.Forwarding

open Foundation Addressing Access Control

theorem cidrsOverlap_of_within {host key : String} (h : cidrWithin host key) :
    cidrsOverlap host key := by
  obtain ⟨x, y, hx, hy, hwithin⟩ := cidrWithin_parses h
  exact (cidrsOverlap_iff hx hy).mpr (.inl hwithin)

/-- The client with another exit choice. -/
def ClientView.choosing (client : ClientView) (request : Option String) : ClientView :=
  { client with exitRequest := request }

section Choice

variable {acl : Acl} {now : Int} {distribution : Distribution} {router : RouterView}
  {client : ClientView} {request source host : String} {traffic : Traffic} {key : String}

/-! ## What an exit choice changes -/

theorem given_without :
    Given acl distribution router (client.choosing none) key ↔
      isDefaultRoute key = false ∧ Offered acl distribution router client key := by
  have hnone : router.selectedBy none = false := rfl
  unfold Given ClientView.choosing
  simp only [hnone, Bool.false_eq_true, imp_false, Bool.not_eq_true]
  rfl

theorem given_chosen (hchosen : router.selectedBy (some request)) :
    Given acl distribution router (client.choosing (some request)) key ↔
      Offered acl distribution router client key := by
  unfold Given ClientView.choosing
  simp only [hchosen, implies_true, true_and]
  rfl

/-- Grants that are no exit routes do not depend on the exit choice. -/
theorem granted_choosing {choice : Option String} :
    Granted acl distribution router (client.choosing choice) host traffic ↔
      Granted acl distribution router client host traffic := by
  unfold Granted GivenFor
  refine exists_congr fun key => ?_
  cases hkey : isDefaultRoute key with
  | true => simp
  | false =>
    simp only [Bool.false_eq_true, false_implies, true_and]
    rfl

theorem hostAllowed_choosing {choice : Option String} :
    HostAllowed acl distribution router (client.choosing choice) host traffic ↔
      HostAllowed acl distribution router client host traffic := by
  refine exists_congr fun name => exists_congr fun named => and_congr_right fun _ => ?_
  refine and_congr (exists_congr fun key => and_congr_left fun hkey => ?_) Iff.rfl
  unfold Given
  simp only [hkey.1, Bool.false_eq_true, false_implies, true_and]
  rfl

/-- Without the choice there is no exit route to deny or allow. -/
theorem forwards_without_iff :
    (compileClient acl now distribution router (client.choosing none) {}).forwards source host
        traffic ↔
      Served acl now router client ∧ source ∈ hostAddresses client.overlay ∧
        ¬ HostDenied acl distribution router (client.choosing none) host traffic ∧
        (HostAllowed acl distribution router client host traffic ∨
          Granted acl distribution router client host traffic) := by
  have hdenied : ¬ ExitDenied acl distribution router (client.choosing none) host := by
    rintro ⟨⟨key, hgiven, hdefault⟩, -⟩
    rw [(given_without.mp hgiven).1] at hdefault
    exact Bool.false_ne_true hdefault
  have hexit : ¬ ByExit acl distribution router (client.choosing none) host traffic := by
    rintro ⟨⟨key, hgiven, hdefault, -⟩, -⟩
    exact Bool.false_ne_true (hgiven.1 hdefault)
  rw [forwards_iff, hostAllowed_choosing, granted_choosing]
  simp only [hdenied, hexit, not_false_eq_true, or_false, true_and]
  rfl

/-- The choice adds the denied hosts that lie in an exit route. -/
theorem hostDenied_chosen (hchosen : router.selectedBy (some request)) :
    HostDenied acl distribution router (client.choosing (some request)) host traffic ↔
      HostDenied acl distribution router (client.choosing none) host traffic ∨
        ∃ exit, (Offered acl distribution router client exit ∧ isDefaultRoute exit) ∧
          ∃ name named rule, Names acl host name named ∧ cidrWithin named exit ∧
            HostRule acl client .deny name rule ∧ (ruleService rule).carries traffic := by
  unfold HostDenied
  simp only [given_without, given_chosen hchosen]
  constructor
  · rintro ⟨name, named, hnames, ⟨key, hoffered, hkey⟩, rule, hrule, hcarries⟩
    cases hdefault : isDefaultRoute key with
    | true =>
      exact .inr ⟨key, ⟨hoffered, hdefault⟩, name, named, rule, hnames, hkey, hrule, hcarries⟩
    | false =>
      exact .inl ⟨name, named, hnames, ⟨key, ⟨hdefault, hoffered⟩, hkey⟩, rule, hrule, hcarries⟩
  · rintro (⟨name, named, hnames, ⟨key, ⟨-, hoffered⟩, hkey⟩, rule, hrule, hcarries⟩ |
      ⟨exit, ⟨hoffered, -⟩, name, named, rule, hnames, hkey, hrule, hcarries⟩)
    · exact ⟨name, named, hnames, ⟨key, hoffered, hkey⟩, rule, hrule, hcarries⟩
    · exact ⟨name, named, hnames, ⟨exit, hoffered, hkey⟩, rule, hrule, hcarries⟩

/-- A flow that is forwarded without an exit choice is forwarded with it exactly if, an exit
route being offered, the client is given every carried prefix that holds the destination and no
denied host of the exit route holds it. -/
theorem chosen_forwards_iff (hchosen : router.selectedBy (some request))
    (hwithout : (compileClient acl now distribution router (client.choosing none) {}).forwards
      source host traffic) :
    (compileClient acl now distribution router (client.choosing (some request)) {}).forwards
        source host traffic ↔
      ∀ exit, Offered acl distribution router client exit → isDefaultRoute exit →
        (∀ key, Carries distribution router key → cidrWithin host key →
          Offered acl distribution router client key) ∧
        ∀ name named rule, Names acl host name named → cidrWithin named exit →
          HostRule acl client .deny name rule → (ruleService rule).carries traffic = false := by
  obtain ⟨hserved, hsource, hhosts, hallowed⟩ := forwards_without_iff.mp hwithout
  have hserved' : Served acl now router (client.choosing (some request)) := hserved
  have hsource' : source ∈ hostAddresses (client.choosing (some request)).overlay := hsource
  rw [forwards_iff, hostDenied_chosen hchosen, hostAllowed_choosing, granted_choosing]
  unfold ExitDenied
  simp only [given_chosen hchosen, hserved', hsource', hhosts, true_and, false_or]
  constructor
  · rintro ⟨hcarried, hnamed, -⟩ exit hoffered hdefault
    refine ⟨fun key hkey hwithin => ?_, fun name named rule hnames hin hrule => ?_⟩
    · by_contra hnot
      exact hcarried ⟨⟨exit, hoffered, hdefault⟩, key, hkey, hnot, hwithin⟩
    · cases hcarries : (ruleService rule).carries traffic with
      | false => rfl
      | true =>
        exact absurd ⟨exit, ⟨hoffered, hdefault⟩, name, named, rule, hnames, hin, hrule, hcarries⟩
          hnamed
  · intro hkeeps
    refine ⟨?_, ?_, hallowed.imp_right .inl⟩
    · rintro ⟨⟨exit, hoffered, hdefault⟩, key, hkey, hnot, hwithin⟩
      exact hnot ((hkeeps exit hoffered hdefault).1 key hkey hwithin)
    · rintro ⟨exit, ⟨hoffered, hdefault⟩, name, named, rule, hnames, hin, hrule, hcarries⟩
      rw [(hkeeps exit hoffered hdefault).2 name named rule hnames hin hrule] at hcarries
      exact Bool.false_ne_true hcarries

/-! A site whose router has an approved exit route and carries the resource `10.20.1.0/24`,
with a client that may use it. -/

def siteResource : ActiveRoute where
  cidr := "10.20.1.0/24"
  router := 1
  routingPeers := [1]
  access := { roles := [.member] }
  service := .everything

def siteDistribution : Distribution where
  routes := [siteResource]
  reserved := [("10.20.1.0/24", [1])]

def siteRouter (advertised : List String) : RouterView where
  id := 1
  name := "site"
  approved := ["0.0.0.0/0"]
  advertised := advertised

def siteClient : ClientView where
  id := 2
  overlay := ["100.64.0.2/32"]

/-- SSH to a host of the resource. -/
def toSite : Traffic := .asked (some .tcp) (some 22)

theorem site_carries (h : Carries siteDistribution (siteRouter ["0.0.0.0/0"]) key) :
    key = "10.20.1.0/24" := by
  obtain ⟨hplain, happroved | hadvertised | ⟨route, hroute, -, hcidr⟩ | ⟨peers, hreserved, -⟩⟩ := h
  · rw [List.mem_singleton.mp happroved] at hplain
    exact absurd hplain (by decide +kernel)
  · rw [List.mem_singleton.mp hadvertised] at hplain
    exact absurd hplain (by decide +kernel)
  · rw [List.mem_singleton.mp hroute] at hcidr
    exact hcidr.symm
  · exact (Prod.mk.inj (List.mem_singleton.mp hreserved)).1

theorem site_offers :
    Offered {} siteDistribution (siteRouter ["0.0.0.0/0"]) siteClient "10.20.1.0/24" :=
  .inr ⟨siteResource, List.mem_singleton.mpr rfl, ⟨rfl, by decide, rfl⟩, rfl⟩

theorem chosen_forwards_site :
    (compileClient {} 0 siteDistribution (siteRouter ["0.0.0.0/0"])
      (siteClient.choosing (some "site")) {}).forwards "100.64.0.2/32" "10.20.1.5/32" toSite =
        true := by
  apply (chosen_forwards_iff (by decide +kernel) (by decide +kernel)).mpr
  intro exit _ _
  constructor
  · intro key hkey _
    rw [site_carries hkey]
    exact site_offers
  · intro name named rule hnames
    obtain ⟨value, hvalue, -⟩ := hnames
    cases hvalue

/-- The router also advertises `10.20.0.0/16`, which nobody approved.  The resource inside it
is distributed as `10.20.1.0/24`, and the exit choice shuts it. -/
theorem exit_choice_shuts_resource :
    (compileClient {} 0 siteDistribution (siteRouter ["0.0.0.0/0", "10.20.0.0/16"])
        (siteClient.choosing none) {}).forwards "100.64.0.2/32" "10.20.1.5/32" toSite ∧
      (siteRouter ["0.0.0.0/0", "10.20.0.0/16"]).selectedBy (some "site") ∧
      (compileClient {} 0 siteDistribution (siteRouter ["0.0.0.0/0", "10.20.0.0/16"])
        (siteClient.choosing (some "site")) {}).forwards "100.64.0.2/32" "10.20.1.5/32" toSite =
          false := by
  decide +kernel

/-! ## What an exit client reaches -/

/-- With an exit route, a destination inside what the router carries is reached only if the
client is given every carried prefix that holds it, and then by a grant or a host rule. -/
theorem exit_client_stays_out {exit key : String}
    (hexit : Given acl distribution router client exit) (hdefault : isDefaultRoute exit)
    (hkey : Carries distribution router key) (hinside : cidrWithin host key)
    (hforwards : (compileClient acl now distribution router client {}).forwards source host
      traffic) :
    (∀ other, Carries distribution router other → cidrWithin host other →
        Given acl distribution router client other) ∧
      (Granted acl distribution router client host traffic ∨
        HostAllowed acl distribution router client host traffic) := by
  obtain ⟨-, -, hcarried, -, hallowed⟩ := forwards_iff.mp hforwards
  refine ⟨fun other hother hwithin => ?_, ?_⟩
  · by_contra hnot
    exact hcarried ⟨⟨exit, hexit, hdefault⟩, other, hother, hnot, hwithin⟩
  · rcases hallowed with hhost | hgranted | hbyExit
    · exact .inr hhost
    · exact .inl hgranted
    · have hapart := hbyExit.2 key hkey
      rw [cidrsOverlap_of_within hinside] at hapart
      exact absurd hapart.symm Bool.false_ne_true

theorem exit_client_at_site :
    (∀ other, Carries siteDistribution (siteRouter ["0.0.0.0/0"]) other →
        cidrWithin "10.20.1.5/32" other →
        Given {} siteDistribution (siteRouter ["0.0.0.0/0"]) (siteClient.choosing (some "site"))
          other) ∧
      (Granted {} siteDistribution (siteRouter ["0.0.0.0/0"]) (siteClient.choosing (some "site"))
          "10.20.1.5/32" toSite ∨
        HostAllowed {} siteDistribution (siteRouter ["0.0.0.0/0"])
          (siteClient.choosing (some "site")) "10.20.1.5/32" toSite) := by
  have hexit : Given {} siteDistribution (siteRouter ["0.0.0.0/0"])
      (siteClient.choosing (some "site")) "0.0.0.0/0" :=
    ⟨fun _ => by decide +kernel, .inl (List.mem_singleton.mpr rfl)⟩
  have hcarries : Carries siteDistribution (siteRouter ["0.0.0.0/0"]) "10.20.1.0/24" :=
    ⟨by decide +kernel, .inr (.inr (.inr ⟨[1], List.mem_singleton.mpr rfl,
      List.mem_singleton.mpr rfl⟩))⟩
  have hforwards : (compileClient {} 0 siteDistribution (siteRouter ["0.0.0.0/0"])
      (siteClient.choosing (some "site")) {}).forwards "100.64.0.2/32" "10.20.1.5/32" toSite =
        true := by
    decide +kernel
  exact exit_client_stays_out hexit (by decide +kernel) hcarries (by decide +kernel) hforwards

def plainRouter : RouterView where
  id := 1
  name := "site"
  approved := ["10.20.1.0/24"]
  advertised := ["10.20.0.0/16"]

/-- Without an exit route the choice means nothing: the client reaches an approved prefix inside
an advertised one that it is not given. -/
theorem chosen_without_exit_route :
    plainRouter.selectedBy (siteClient.choosing (some "site")).exitRequest ∧
      (compileClient {} 0 {} plainRouter (siteClient.choosing (some "site")) {}).forwards
        "100.64.0.2/32" "10.20.1.5/32" toSite ∧
      Carries {} plainRouter "10.20.0.0/16" ∧ cidrWithin "10.20.1.5/32" "10.20.0.0/16" = true ∧
      ¬ Given {} {} plainRouter (siteClient.choosing (some "site")) "10.20.0.0/16" := by
  refine ⟨by decide +kernel, by decide +kernel, ⟨by decide +kernel, ?_⟩, by decide +kernel, ?_⟩
  · exact .inr (.inl (List.mem_singleton.mpr rfl))
  · rw [← grants_isSome]
    decide +kernel

end Choice

/-! ## Host deny rules -/

/-- A packet as far as rules tell packets apart. -/
inductive Packet where
  | tcp (port : UInt16)
  | udp (port : UInt16)
  | icmp
  | other

namespace Packet

def traffic : Packet → Traffic
  | .tcp port => .asked (some .tcp) (some port.toNat)
  | .udp port => .asked (some .udp) (some port.toNat)
  | .icmp => .asked (some .icmp) none
  | .other => .other

/-- A service can name the packet: ICMP, or a port other than 0. -/
def Nameable : Packet → Prop
  | .tcp port => port ≠ 0
  | .udp port => port ≠ 0
  | .icmp => True
  | .other => False

/-- The rule matches the pair for the packet.  Rules with ports say nothing about ICMP, and
only rules without ports and protocols match the other protocols. -/
def MatchedBy (acl : Acl) (rule : AclRule) (s d : Subject) (name : String) : Packet → Prop
  | .tcp port => acl.ruleMatches rule s d (some port.toNat) (some .tcp) (some name)
  | .udp port => acl.ruleMatches rule s d (some port.toNat) (some .udp) (some name)
  | .icmp => acl.ruleMatches rule s d none (some .icmp) (some name) ∧ rule.dstPorts = []
  | .other => acl.ruleMatches rule s d none none (some name) ∧ rule.unrestricted

end Packet

variable {rule : AclRule}

theorem ruleService_carries_port {protocol : AclProtocol} {port : UInt16}
    (hprotocol : protocol ≠ .icmp) :
    (ruleService rule).carries (.asked (some protocol) (some port.toNat)) ↔
      rule.covers protocol port.toNat ∧ port ≠ 0 := by
  have hspecs : (ruleService rule).carries (.asked (some protocol) (some port.toNat)) =
      specsCover ((collectServiceSpecs {} rule).specs protocol) port.toNat := by
    cases protocol with
    | icmp => exact absurd rfl hprotocol
    | tcp | udp => rfl
  rw [hspecs]
  by_cases hport : port = 0
  · subst hport
    have hzero : ∀ specs : List String, specsCover specs 0 = false := by
      intro specs
      exact List.any_eq_false.mpr fun spec _ => by simp [specCovers_zero]
    simp [hzero]
  · have hlow : 1 ≤ port.toNat := Nat.one_le_iff_ne_zero.mpr fun h => hport (UInt16.toNat_inj.mp h)
    have hhigh : port.toNat ≤ 65535 := Nat.le_of_lt_succ port.toNat_lt
    have hnone : specsCover (({} : Services).specs protocol) port.toNat = false := by
      cases protocol <;> rfl
    rw [collectServiceSpecs_covers hprotocol hlow hhigh, hnone]
    simp [hport]

theorem ruleService_carries_icmp :
    (ruleService rule).carries (.asked (some .icmp) none) ↔
      rule.dstPorts = [] ∧ protocolMatches rule.protocols (some .icmp) := by
  cases hports : rule.dstPorts with
  | nil => simp [ruleService, collectServiceSpecs, ForwardService.carries, ForwardService.admits,
      protocolMatches, hports]
  | cons port ports => simp [ruleService, collectServiceSpecs, ForwardService.carries,
      ForwardService.admits, hports]

/-- ICMP asks nothing about ports. -/
theorem ruleMatches_icmp {acl : Acl} {s d : Subject} {host : Option String} :
    acl.ruleMatches rule s d none (some .icmp) host =
      (acl.ruleMatches rule s d none none host &&
        protocolMatches rule.protocols (some .icmp)) := by
  simp [Acl.ruleMatches, portSpecMatches, protocolMatches]

section Denied

variable {acl : Acl} {distribution : Distribution} {router : RouterView} {client : ClientView}
  {host : String} {packet : Packet}

/-- A host deny entry speaks of the packet exactly if its rule does and the packet can be
named. -/
theorem hostRule_carries_iff {name : String} :
    (HostRule acl client .deny name rule ∧ (ruleService rule).carries packet.traffic) ↔
      (rule ∈ acl.rules ∧ rule.action = .deny ∧
        packet.MatchedBy acl rule client.subject hostSubject name) ∧ packet.Nameable := by
  have htcp : AclProtocol.tcp ≠ .icmp := by decide
  have hudp : AclProtocol.udp ≠ .icmp := by decide
  cases packet with
  | tcp port =>
    simp only [HostRule, Packet.traffic, Packet.MatchedBy, Packet.Nameable, Acl.ruleMatches_packet,
      ruleService_carries_port htcp, Bool.and_eq_true, and_assoc]
  | udp port =>
    simp only [HostRule, Packet.traffic, Packet.MatchedBy, Packet.Nameable, Acl.ruleMatches_packet,
      ruleService_carries_port hudp, Bool.and_eq_true, and_assoc]
  | icmp =>
    simp only [HostRule, Packet.traffic, Packet.MatchedBy, Packet.Nameable, ruleMatches_icmp,
      ruleService_carries_icmp, Bool.and_eq_true, and_assoc, and_true]
    tauto
  | other =>
    -- a rule's service is never everything
    have hnever : (ruleService rule).carries .other = false := rfl
    simp [Packet.traffic, Packet.Nameable, hnever]

/-- A deny rule matches the client and a named host that holds the destination, for the
packet. -/
def HostDenyMatches (acl : Acl) (client : ClientView) (host name named : String)
    (packet : Packet) : Prop :=
  Names acl host name named ∧ ∃ rule ∈ acl.rules, rule.action = .deny ∧
    packet.MatchedBy acl rule client.subject hostSubject name

theorem hostDenied_iff :
    HostDenied acl distribution router client host packet.traffic ↔
      packet.Nameable ∧ ∃ name named, HostDenyMatches acl client host name named packet ∧
        ∃ key, Given acl distribution router client key ∧ cidrWithin named key := by
  unfold HostDenied HostDenyMatches
  simp only [hostRule_carries_iff]
  constructor
  · rintro ⟨name, named, hnames, hkey, rule, ⟨hmem, hdeny, hmatched⟩, hnameable⟩
    exact ⟨hnameable, name, named, ⟨hnames, rule, hmem, hdeny, hmatched⟩, hkey⟩
  · rintro ⟨hnameable, name, named, ⟨hnames, rule, hmem, hdeny, hmatched⟩, hkey⟩
    exact ⟨name, named, hnames, hkey, rule, ⟨hmem, hdeny, hmatched⟩, hnameable⟩

/-- A host deny rule wins exactly if, the client being served and the destination allowed by
some entry, the destination is shut to exit clients anyway, or a service can name the packet and
a denied host that holds the destination lies in a prefix the client is given. -/
theorem host_deny_wins_iff {now : Int} {source : String} :
    ((∃ name named, HostDenyMatches acl client host name named packet) →
        (compileClient acl now distribution router client {}).forwards source host
          packet.traffic = false) ↔
      ((∃ name named, HostDenyMatches acl client host name named packet) →
        Served acl now router client → source ∈ hostAddresses client.overlay →
        (HostAllowed acl distribution router client host packet.traffic ∨
          Granted acl distribution router client host packet.traffic ∨
          ByExit acl distribution router client host packet.traffic) →
        ExitDenied acl distribution router client host ∨
          (packet.Nameable ∧ ∃ name named, HostDenyMatches acl client host name named packet ∧
            ∃ key, Given acl distribution router client key ∧ cidrWithin named key)) := by
  rw [← hostDenied_iff, ← Bool.not_eq_true, forwards_iff]
  apply imp_congr_right
  intro _
  tauto

/-- A policy that denies members the named host. -/
def shutHost (value : String) : Acl where
  hosts := [("lab", value)]
  rules := [{ action := .deny, dstHosts := ["lab"] }]

def labRouter : RouterView where
  id := 1
  approved := ["10.0.1.0/24"]

/-- Two ways past a host deny rule: the host is wider than the prefix the client is given, or
the packet is neither TCP, UDP nor ICMP. -/
theorem host_deny_misses :
    (HostDenyMatches (shutHost "10.0.0.0/16") siteClient "10.0.1.5/32" "lab" "10.0.0.0/16"
        (.tcp 22) ∧
      (compileClient (shutHost "10.0.0.0/16") 0 {} labRouter siteClient {}).forwards
        "100.64.0.2/32" "10.0.1.5/32" (Packet.tcp 22).traffic) ∧
    (HostDenyMatches (shutHost "10.0.1.5") siteClient "10.0.1.5/32" "lab" "10.0.1.5/32" .other ∧
      (compileClient (shutHost "10.0.1.5") 0 {} labRouter siteClient {}).forwards
        "100.64.0.2/32" "10.0.1.5/32" Packet.other.traffic) := by
  refine ⟨⟨⟨⟨_, List.mem_singleton.mpr rfl, by decide +kernel, by decide +kernel⟩, _,
      List.mem_singleton.mpr rfl, rfl, ?_⟩, by decide +kernel⟩,
    ⟨⟨⟨_, List.mem_singleton.mpr rfl, by decide +kernel, by decide +kernel⟩, _,
      List.mem_singleton.mpr rfl, rfl, ?_⟩, by decide +kernel⟩⟩
  · exact (by decide +kernel : (shutHost "10.0.0.0/16").ruleMatches
      { action := .deny, dstHosts := ["lab"] } siteClient.subject hostSubject (some 22)
      (some .tcp) (some "lab"))
  · exact ⟨by decide +kernel, rfl⟩

end Denied

end BlakTail.Forwarding
