import BlakTail.Access.Ssh
import BlakTail.Firewall.Rules

/-!
# What a Grant Decides

Three compilers render the grants of peers into rules: the Linux chain, the macOS anchor and the
userspace filter.  They write the same clauses in the same order, each in rules of its own:

The chain is an instance: `chain_reads`, and `accepts_planOverlayFilter` for the whole plan.
-/

namespace BlakTail.Firewall

open Foundation Foundation.Netfilter Control Access PacketTable

/-! ## Grants -/

/-- A deny of the grant covers the packet; `icmp` says that it counts as ICMP. -/
def denies (ingress : PeerIngress) (icmp : Bool) (protocol port : Nat) : Bool :=
  (protocol = 6 && specsCover ingress.denyTcp port) ||
    (protocol = 17 && specsCover ingress.denyUdp port) || (ingress.denyIcmp && icmp)

/-- An allow of the grant covers the packet. -/
def covers (ingress : PeerIngress) (icmp : Bool) (protocol port : Nat) : Bool :=
  (protocol = 6 && specsCover ingress.tcp port) ||
    (protocol = 17 && specsCover ingress.udp port) || (ingress.icmp && icmp)

/-- What a grant says about a packet: denies win, and it may say nothing. -/
def grantVerdict (ingress : PeerIngress) (icmp : Bool) (protocol port : Nat) : Option Bool :=
  (decideWhen (denies ingress icmp protocol port) false).or
    (decideWhen (ingress.all || covers ingress icmp protocol port) true)

/-- The packet opens the post-quantum exchange. -/
def toExchange (protocol port : Nat) : Bool := protocol = 6 && port = PQ_PORT

/-! ## Dialects -/

/-- How a compiler writes the clauses of one source. -/
structure Dialect (Rule : Type) where
  /-- TCP or UDP to the ports of a specification, if it can be read -/
  port : (accept tcp : Bool) → (spec : String) → Option Rule
  icmp : (accept : Bool) → Rule
  /-- accepts all of the source -/
  whole : Rule
  /-- what follows the accepts of a grant that is not for everything -/
  rest : List Rule

/-- The clauses of a grant in order: the exchange, denies, then everything or the allows. -/
def Dialect.rules {Rule : Type} (dialect : Dialect Rule) (exchange : Bool)
    (ingress : PeerIngress) : List Rule :=
  (if exchange then (dialect.port true true (toString PQ_PORT)).toList else []) ++
    (ingress.denyTcp.filterMap (dialect.port false true) ++
      ingress.denyUdp.filterMap (dialect.port false false) ++
      if ingress.denyIcmp then [dialect.icmp false] else []) ++
    if ingress.all then [dialect.whole]
    else
      ingress.tcp.filterMap (dialect.port true true) ++
        ingress.udp.filterMap (dialect.port true false) ++
        (if ingress.icmp then [dialect.icmp true] else []) ++ dialect.rest

/-- What the rules of a dialect make of a packet.  `here` says that it comes from their source,
`ends` that the rest is rejected. -/
structure Dialect.Reads {Rule Packet : Type} (dialect : Dialect Rule)
    (verdict : Rule → Packet → Option Bool) (packet : Packet) (here icmp ends : Bool)
    (protocol port : Nat) : Prop where
  port : ∀ accept tcp spec, walk verdict (dialect.port accept tcp spec).toList packet =
    decideWhen
      (here && (protocol = (if tcp then 6 else 17) && specCovers spec port)) accept
  icmp : ∀ accept, verdict (dialect.icmp accept) packet =
    decideWhen (here && icmp) accept
  whole : verdict dialect.whole packet = decideWhen here true
  rest : walk verdict dialect.rest packet =
    decideWhen (here && ends) false

section Reads

variable {Rule Packet : Type} {dialect : Dialect Rule} {verdict : Rule → Packet → Option Bool}
  {packet : Packet} {here icmp ends : Bool} {protocol port : Nat}

theorem Dialect.Reads.ports (h : dialect.Reads verdict packet here icmp ends protocol port)
    (accept tcp : Bool) (specs : List String) :
    walk verdict (specs.filterMap (dialect.port accept tcp)) packet =
      decideWhen
        (here && (protocol = (if tcp then 6 else 17) && specsCover specs port)) accept := by
  rw [walk_filterMap fun spec _ => h.port accept tcp spec, ← List.and_any_distrib_left,
    ← List.and_any_distrib_left]
  rfl

theorem Dialect.Reads.icmps (h : dialect.Reads verdict packet here icmp ends protocol port)
    (accept named : Bool) :
    walk verdict (if named then [dialect.icmp accept] else []) packet =
      decideWhen (here && (named && icmp)) accept := by
  cases named with
  | true =>
    rw [if_pos rfl, walk_singleton, h.icmp, Bool.true_and]
  | false => simp [walk, decideWhen]

theorem specCovers_exchange (port : Nat) :
    specCovers (toString PQ_PORT) port = decide (port = PQ_PORT) := by
  rw [specCovers, parseAclPortSpec_toString (by decide) (by decide), Bool.eq_iff_iff]
  simp only [Bool.and_eq_true, decide_eq_true_eq]
  omega

section

variable (h : dialect.Reads verdict packet here icmp ends protocol port)
include h

theorem Dialect.Reads.exchanges (exchange : Bool) :
    walk verdict
        (if exchange then (dialect.port true true (toString PQ_PORT)).toList else []) packet =
      decideWhen (here && (exchange && toExchange protocol port)) true := by
  cases exchange with
  | true =>
    rw [if_pos rfl, h.port, specCovers_exchange, Bool.true_and]
    rfl
  | false => simp [walk, decideWhen]

/-- The clauses of one kind, TCP then UDP then ICMP. -/
theorem Dialect.Reads.clauses (accept named : Bool) (tcp udp : List String) :
    walk verdict
        (tcp.filterMap (dialect.port accept true) ++ udp.filterMap (dialect.port accept false) ++
          if named then [dialect.icmp accept] else []) packet =
      decideWhen (here && ((protocol = 6 && specsCover tcp port) ||
        (protocol = 17 && specsCover udp port) || (named && icmp))) accept := by
  rw [walk_append, walk_append, h.ports, h.ports, h.icmps,
    decideWhen_or, decideWhen_or, Bool.and_or_distrib_left,
    Bool.and_or_distrib_left]
  rfl

/-- Rules decide what the grant says, and nothing about packets from elsewhere. -/
theorem Dialect.walk_rules (exchange : Bool) (ingress : PeerIngress) :
    walk verdict (dialect.rules exchange ingress) packet =
      if here then
        (decideWhen (exchange && toExchange protocol port) true).or
          ((grantVerdict ingress icmp protocol port).or (decideWhen ends false))
      else none := by
  have hdenies := h.clauses false ingress.denyIcmp ingress.denyTcp ingress.denyUdp
  have hcovers := h.clauses true ingress.icmp ingress.tcp ingress.udp
  have haccepts : walk verdict
      (if ingress.all then [dialect.whole]
      else
        ingress.tcp.filterMap (dialect.port true true) ++
          ingress.udp.filterMap (dialect.port true false) ++
          (if ingress.icmp then [dialect.icmp true] else []) ++ dialect.rest) packet =
        (decideWhen (here && (ingress.all || covers ingress icmp protocol port)) true).or
          (decideWhen (here && ends) false) := by
    cases hall : ingress.all with
    | true =>
      rw [if_pos rfl, walk_singleton, h.whole, Bool.true_or]
      cases here with
      | true | false => rfl
    | false =>
      rw [if_neg Bool.false_ne_true, walk_append, hcovers, h.rest]
      rfl
  unfold Dialect.rules
  rw [walk_append, walk_append, h.exchanges, hdenies, haccepts]
  cases here with
  | true =>
    rw [Option.or_assoc, grantVerdict, Option.or_assoc]
    rfl
  | false => rfl

end

end Reads

/-! ## The Linux chain -/

def chainVerdict (rule : List String) (conn : Connection) : Option Bool :=
  ruleVerdict (rule.drop 2) conn

theorem chainVerdict_append (body : List String) (conn : Connection) :
    chainVerdict (appendRule body) conn = ruleVerdict body conn := rfl

def chainDialect (address : String) : Dialect (List String) where
  port := fun accept tcp spec => (iptablesPort spec).map fun port =>
    if accept then acceptPort address (if tcp then "tcp" else "udp") port
    else rejectPort address (if tcp then "tcp" else "udp") port tcp
  icmp := fun accept => if accept then acceptIcmp address else rejectIcmp address
  whole := acceptSource address
  rest := sourceReject address

def runsExchange (peer : Peer) : Bool := peer.pq.any fun pq => pq.mode ≠ .off && pq.capable

theorem addressRules_eq (peer : Peer) (address : String) :
    addressRules peer address =
      (chainDialect address).rules (runsExchange peer) (peer.ingress.getD { all := true }) := by
  have hexchange : ((chainDialect address).port true true (toString PQ_PORT)).toList =
      [acceptPort address "tcp" (toString PQ_PORT)] := by
    have hport : iptablesPort (toString PQ_PORT) = some (toString PQ_PORT) := by decide
    simp only [chainDialect, hport, Option.map_some, Option.toList_some, if_true]
  unfold addressRules peerRules Dialect.rules runsExchange
  rw [hexchange]
  simp only [chainDialect, List.map_filterMap, if_true, Bool.false_eq_true, if_false]
  cases (peer.ingress.getD { all := true }).all with
  | true => simp only [if_true, List.append_assoc]
  | false => simp only [Bool.false_eq_true, if_false, List.append_assoc]

def ownIcmp (address : IpAddr) (protocol : Nat) : Bool :=
  protocol = if address.isIpv6 then 58 else 1

variable (address : IpAddr)

theorem ruleVerdict_source {protocol port : Option String}
    (hprotocol : ∀ word ∈ protocol, Operand word) (hport : ∀ word ∈ port, Operand word)
    {options : List String} (hoptions : ∀ word ∈ options, Operand word) (accept : Bool)
    (conn : Connection) :
    ruleVerdict (Selectors.rule ⟨some address.toText, none, protocol, port⟩
        (decision accept :: options)) conn =
      decideWhen (address == conn.source &&
        (protocol.all (fun name => protocolNumber name == some conn.protocol) &&
          port.all (portMatches conn.port))) accept := by
  have hplain : Selectors.Plain ⟨some address.toText, none, protocol, port⟩ := by
    refine ⟨?_, none_operand, hprotocol, hport⟩
    intro word hword
    cases hword
    exact operand_of_address (IpAddr.parse_toText address)
  rw [ruleVerdict_rule hplain hoptions, Option.all_some, IpAddr.parse_toText,
    Option.some_beq_some, Bool.and_assoc]

variable (conn : Connection)

theorem chainVerdict_port (accept tcp : Bool) {spec word : String}
    (hword : iptablesPort spec = some word) :
    chainVerdict (if accept then acceptPort address.toText (if tcp then "tcp" else "udp") word
        else rejectPort address.toText (if tcp then "tcp" else "udp") word tcp) conn =
      decideWhen (address == conn.source &&
        (conn.protocol = (if tcp then 6 else 17) && specCovers spec conn.port)) accept := by
  obtain ⟨hoperand, hcovers⟩ := iptablesPort_covers hword
  have hprotocol : ∀ name ∈ some (if tcp then "tcp" else "udp"), Operand name := by
    cases tcp <;> decide
  have hport : ∀ port ∈ some word, Operand port := by
    intro port heq
    exact Option.some.inj heq ▸ hoperand
  have hnumber : (protocolNumber (if tcp then "tcp" else "udp") == some conn.protocol) =
      decide (conn.protocol = if tcp then 6 else 17) := by
    apply beq_number
    cases tcp <;> rfl
  have hreject : ∀ option ∈ ["--reject-with",
      if tcp then "tcp-reset" else if address.toText.toList.contains ':' then
        "icmp6-port-unreachable" else "icmp-port-unreachable"], Operand option := by
    cases tcp <;> cases address.toText.toList.contains ':' <;> decide
  rw [← hnumber, ← hcovers]
  cases accept with
  | true => exact ruleVerdict_source address hprotocol hport nil_operands true conn
  | false => exact ruleVerdict_source address hprotocol hport hreject false conn

theorem chainVerdict_icmp (accept : Bool) :
    chainVerdict (if accept then acceptIcmp address.toText else rejectIcmp address.toText) conn =
      decideWhen (address == conn.source && ownIcmp address conn.protocol) accept := by
  have hprotocol : ∀ name ∈ some (if address.isIpv6 then "icmpv6" else "icmp"), Operand name := by
    cases address.isIpv6 <;> decide
  have hnumber : (protocolNumber (if address.isIpv6 then "icmpv6" else "icmp") ==
      some conn.protocol) = ownIcmp address conn.protocol := by
    apply beq_number
    cases address.isIpv6 <;> rfl
  have hreject : ∀ option ∈ ["--reject-with",
      if address.isIpv6 then "icmp6-port-unreachable" else "icmp-port-unreachable"],
      Operand option := by
    cases address.isIpv6 <;> decide
  have hwhole : decideWhen (address == conn.source &&
      ownIcmp address conn.protocol) accept = decideWhen (address == conn.source &&
        ((some (if address.isIpv6 then "icmpv6" else "icmp")).all
          (fun name => protocolNumber name == some conn.protocol) &&
          (none : Option String).all (portMatches conn.port))) accept := by
    rw [Option.all_some, hnumber, Option.all_none, Bool.and_true]
  rw [hwhole]
  cases accept with
  | true =>
    rw [← ruleVerdict_source address hprotocol none_operand nil_operands true conn]
    simp only [acceptIcmp, IpAddr.contains_colon]
    rfl
  | false =>
    rw [← ruleVerdict_source address hprotocol none_operand hreject false conn]
    simp only [rejectIcmp, IpAddr.contains_colon]
    cases address.isIpv6 <;> rfl

/-- What the chain's rules for an address make of a connection. -/
theorem chain_reads :
    (chainDialect address.toText).Reads chainVerdict conn (address == conn.source)
      (ownIcmp address conn.protocol) true conn.protocol conn.port where
  port := by
    intro accept tcp spec
    show walk chainVerdict ((iptablesPort spec).map fun word =>
      if accept then acceptPort address.toText (if tcp then "tcp" else "udp") word
      else rejectPort address.toText (if tcp then "tcp" else "udp") word tcp).toList conn = _
    cases hword : iptablesPort spec with
    | none => simp [specCovers_of_unreadable hword, walk, decideWhen]
    | some word =>
      rw [Option.map_some, Option.toList_some, walk_singleton]
      exact chainVerdict_port address conn accept tcp hword
  icmp := chainVerdict_icmp address conn
  whole := by
    have hrule := ruleVerdict_source address none_operand none_operand nil_operands true conn
    rw [Option.all_none, Option.all_none, Bool.and_true, Bool.and_true] at hrule
    exact hrule
  rest := by
    have hreset : ∀ word ∈ ["--reject-with", "tcp-reset"], Operand word := by decide
    have hreject : ∀ word ∈ ["--reject-with",
        if address.isIpv6 then "icmp6-port-unreachable" else "icmp-port-unreachable"],
        Operand word := by
      cases address.isIpv6 <;> decide
    have htcp : ∀ name ∈ some "tcp", Operand name := by decide
    have hfirst := ruleVerdict_source address htcp none_operand hreset false conn
    have hlast := ruleVerdict_source address none_operand none_operand hreject false conn
    -- one rule for TCP and one for everything, both for the source alone
    have hrules : sourceReject address.toText =
        [appendRule (Selectors.rule ⟨some address.toText, none, some "tcp", none⟩
            (decision false :: ["--reject-with", "tcp-reset"])),
          appendRule (Selectors.rule ⟨some address.toText, none, none, none⟩
            (decision false :: ["--reject-with",
              if address.isIpv6 then "icmp6-port-unreachable" else "icmp-port-unreachable"]))] := by
      rw [sourceReject, IpAddr.contains_colon]
      rfl
    show walk chainVerdict (sourceReject address.toText) conn = _
    rw [hrules, walk_cons, walk_singleton, chainVerdict_append,
      chainVerdict_append, hfirst, hlast, decideWhen_or]
    cases address == conn.source with
    | true | false => simp

/-! ## The plan -/

def lists (peer : Peer) (source : IpAddr) : Bool :=
  (overlayHostAddrs peer.allowedIps).contains source.toText

/-- What a peer's grant makes of a new connection, where the rest is rejected. -/
def admits (peer : Peer) (icmp : Bool) (protocol port : Nat) : Bool :=
  (runsExchange peer && toExchange protocol port) ||
    (grantVerdict (peer.ingress.getD { all := true }) icmp protocol port).getD false

theorem overlayHostAddrs_address {allowedIps : List String} {text : String}
    (h : text ∈ overlayHostAddrs allowedIps) : ∃ address : IpAddr, text = address.toText := by
  obtain ⟨route, -, hroute⟩ := List.mem_filterMap.mp h
  simp only [overlayHostAddr, bind, Option.bind_eq_some_iff] at hroute
  obtain ⟨parts, -, parsed, -, length, -, hroute⟩ := hroute
  refine ⟨parsed, ?_⟩
  cases parsed with
  | v4 bits | v6 bits => exact (Option.some.inj (Option.ite_none_right_eq_some.mp hroute).2).symm

theorem toText_beq (a b : IpAddr) : (a.toText == b.toText) = (a == b) := by
  rw [Bool.eq_iff_iff, beq_iff_eq, beq_iff_eq]
  constructor
  · intro h
    have hparse := congrArg IpAddr.parse h
    rw [IpAddr.parse_toText, IpAddr.parse_toText] at hparse
    exact Option.some.inj hparse
  · exact congrArg IpAddr.toText

/-- The grant of a peer decides about its own addresses, whatever is not granted. -/
theorem or_reject (exchange : Bool) (verdict : Option Bool) :
    (decideWhen exchange true).or (verdict.or (decideWhen true false)) =
      some (exchange || verdict.getD false) := by
  cases exchange with
  | true => rfl
  | false =>
    cases verdict with
    | none | some decision => rfl

theorem walk_addressRules (peer : Peer) (address : IpAddr) (conn : Connection) :
    walk chainVerdict (addressRules peer address.toText) conn =
      decideWhen (address.toText == conn.source.toText)
        (admits peer (ownIcmp conn.source conn.protocol) conn.protocol conn.port) := by
  rw [addressRules_eq, Dialect.walk_rules (chain_reads address conn), or_reject, toText_beq]
  by_cases hsource : address = conn.source
  · rw [hsource]
    rfl
  · rw [beq_eq_false_iff_ne.mpr hsource]
    rfl

theorem walk_familyRules (peers : List Peer) (conn : Connection) :
    walk chainVerdict (familyRules peers conn.source.isIpv6) conn =
      (peers.find? fun peer => lists peer conn.source).map fun peer =>
        admits peer (ownIcmp conn.source conn.protocol) conn.protocol conn.port := by
  apply walk_first
  intro peer _
  have hwalk : walk chainVerdict
      (((overlayHostAddrs peer.allowedIps).filter fun address =>
        address.toList.contains ':' == conn.source.isIpv6).flatMap (addressRules peer)) conn =
      decideWhen (((overlayHostAddrs peer.allowedIps).filter fun address =>
        address.toList.contains ':' == conn.source.isIpv6).any (· == conn.source.toText))
        (admits peer (ownIcmp conn.source conn.protocol) conn.protocol conn.port) := by
    apply walk_flatMap
    intro text htext
    obtain ⟨address, rfl⟩ := overlayHostAddrs_address (List.mem_filter.mp htext).1
    exact walk_addressRules peer address conn
  rw [hwalk]
  congr 1
  -- the source itself is of its own family
  rw [List.any_filter, lists, List.contains_eq_any_beq, Bool.eq_iff_iff, List.any_eq_true,
    List.any_eq_true]
  refine exists_congr fun text => and_congr_right fun _ => ?_
  rw [Bool.and_eq_true, beq_iff_eq, beq_iff_eq, beq_iff_eq]
  constructor
  · exact fun h => h.2.symm
  · intro heq
    rw [← heq, IpAddr.contains_colon]
    exact ⟨rfl, rfl⟩

/-- What the Linux chain makes of a new connection: the first peer that lists its source
decides. -/
theorem accepts_planOverlayFilter (peers : List Peer) (conn : Connection) :
    (planOverlayFilter peers).accepts conn =
      (!(peers.any fun peer => peer.ingress.isSome) ||
        (peers.find? fun peer => lists peer conn.source).any fun peer =>
          admits peer (ownIcmp conn.source conn.protocol) conn.protocol conn.port) := by
  unfold planOverlayFilter
  cases henforce : peers.any fun peer => peer.ingress.isSome with
  | false => simp [FilterPlan.accepts]
  | true =>
    have hnew : ruleVerdict (established.drop 2) conn = none := rfl
    have hwalk : ∀ rules : List (List String), rules = established ::
        familyRules peers conn.source.isIpv6 ++ finalReject conn.source.isIpv6 →
        walk ruleVerdict (rules.map fun rule => rule.drop 2) conn =
          ((peers.find? fun peer => lists peer conn.source).map fun peer =>
            admits peer (ownIcmp conn.source conn.protocol) conn.protocol conn.port).or
            (some false) := by
      rintro rules rfl
      rw [List.map_append, List.map_cons, walk_append, walk_cons, hnew,
        walk_finalReject, ← walk_familyRules]
      unfold walk
      rw [List.findSome?_map]
      rfl
    unfold FilterPlan.accepts FilterPlan.bodies
    rw [hwalk]
    · cases peers.find? fun peer => lists peer conn.source with
      | none | some peer => rfl
    · cases conn.source.isIpv6 <;> rfl

end BlakTail.Firewall
