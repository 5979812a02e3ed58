import BlakTail.Firewall.Rules
import BlakTail.Forwarding.Reach

/-!
# The Router's Chain

The routing peer turns its forward filter into `iptables` rules, one list for each address family:
established flows, every deny, every allow, then a reject of the rest.  It reads prefixes and
ports with code of its own.  `chain_verdict` says what the chain accepts of any filter, and
`explain_agrees` that for a filter compiled from validated inputs it accepts exactly what `permits`
computes.

The filter arrives as JSON with the service's fields beside the others, so that the agent's
rules are `ForwardRule`s as the coordinator has them.
-/

namespace BlakTail.Forwarding

open Foundation Foundation.Netfilter Addressing Access PacketTable
open Control Firewall

namespace Agent

/-! ## The plan -/

/-- An address or network and its length; `none` for anything else. -/
def parse (value : String) (hostOnly : Bool) : Option (IpAddr × Nat) := do
  let (address, len) ←
    match Text.splitOnce '/' value with
    | some (address, len) => do
      let address ← IpAddr.parse address
      let len ← Text.parseU8 len
      some (address, len)
    | none => do
      let address ← IpAddr.parse value
      some (address, width address.isIpv4)
  if width address.isIpv4 < len || (hostOnly && len ≠ width address.isIpv4) then none
  else some (address, len)

def rejectWith (ipv6 tcp : Bool) : String :=
  if tcp then "tcp-reset" else if ipv6 then "icmp6-port-unreachable" else "icmp-port-unreachable"

def verdict (accept ipv6 tcp : Bool) : List String :=
  ["-j", if accept then "ACCEPT" else "REJECT"] ++
    if accept then [] else ["--reject-with", rejectWith ipv6 tcp]

/-- The rules of one protocol.  An unreadable deny specification denies the whole protocol; an
unreadable allow specification grants nothing. -/
def portRules (base : List String) (accept ipv6 tcp : Bool) (specs : List String) :
    List (List String) :=
  specs.filterMap fun spec =>
    let port :=
      match iptablesPort spec, accept with
      | some port, _ => some port
      | none, false => some "1:65535"
      | none, true => none
    port.map fun port =>
      base ++ ["-p", if tcp then "tcp" else "udp", "--dport", port] ++ verdict accept ipv6 tcp

def sourceRules (accept ipv6 : Bool) (base : List String) (service : ForwardService) :
    List (List String) :=
  if service.all then [base ++ verdict accept ipv6 false]
  else
    portRules base accept ipv6 true service.tcp ++ portRules base accept ipv6 false service.udp ++
      if service.icmp then
        [base ++ ["-p", if ipv6 then "icmpv6" else "icmp"] ++ verdict accept ipv6 false]
      else []

/-- `append_rules`: what an entry adds to the list of one family. -/
def entryRules (accept ipv6 : Bool) (entry : ForwardRule) : List (List String) :=
  match parse (Text.trim entry.destination) false with
  | none => []
  | some (network, len) =>
    entry.sources.flatMap fun source =>
      match parse (Text.trim source) true with
      | none => []
      | some (address, _) =>
        if address.isIpv4 = network.isIpv4 ∧ address.isIpv6 = ipv6 then
          sourceRules accept ipv6 ["-s", address.toText, "-d", cidrText network len] entry.service
        else []

def established : List String :=
  ["-m", "conntrack", "--ctstate", "RELATED,ESTABLISHED", "-j", "ACCEPT"]

def finalRejects (ipv6 : Bool) : List (List String) :=
  [["-p", "tcp", "-j", "REJECT", "--reject-with", "tcp-reset"],
    ["-j", "REJECT", "--reject-with", rejectWith ipv6 false]]

def plan (filter : ForwardFilter) (ipv6 : Bool) : List (List String) :=
  established :: filter.deny.flatMap (entryRules false ipv6) ++
    filter.allow.flatMap (entryRules true ipv6) ++ finalRejects ipv6

/-! ## Verdicts -/

/-- The first packet of a flow that the router forwards. -/
structure Forwarded extends Connection where
  destination : IpAddr

/-- A network as `-d` takes it. -/
def inNetwork (address : IpAddr) (network : String) : Bool :=
  ((Text.splitOnce '/' network).bind fun (network, len) => do
    let network ← IpAddr.parse network
    let len ← Text.parseU8 len
    some (cidrContains network len address)).getD false

/-- What a rule decides about a forwarded packet. -/
def forwardVerdict (body : List String) (packet : Forwarded) : Option Bool :=
  if (ruleValue body "-d").all (inNetwork packet.destination) then
    ruleVerdict body packet.toConnection
  else none

def accepts (filter : ForwardFilter) (packet : Forwarded) : Bool :=
  walk forwardVerdict (plan filter packet.destination.isIpv6) packet = some true

/-! ## Rules -/

/-- What stands behind the verdict of a rule. -/
def options (accept ipv6 tcp : Bool) : List String :=
  if accept then [] else ["--reject-with", rejectWith ipv6 tcp]

theorem options_operands (accept ipv6 tcp : Bool) :
    ∀ word ∈ options accept ipv6 tcp, Operand word := by
  cases accept <;> cases ipv6 <;> cases tcp <;> decide

variable {network : IpAddr} {len : Nat}

theorem inNetwork_cidrText (hlen : len ≤ width network.isIpv4) (address : IpAddr) :
    inNetwork address (cidrText network len) = cidrContains network len address := by
  have hbound : len ≤ 255 := by
    unfold width at hlen
    split at hlen <;> omega
  unfold inNetwork
  rw [splitOnce_cidrText]
  simp only [Option.bind_eq_bind, Option.bind_some, IpAddr.parse_toText,
    Text.parseU8_toString hbound, Option.getD_some]

theorem operand_cidrText (network : IpAddr) (len : Nat) : Operand (cidrText network len) := by
  intro hflag
  have hnone : ∀ flag ∈ flags, Text.splitOnce '/' flag = none := by decide
  have hsplit := hnone _ hflag
  rw [splitOnce_cidrText] at hsplit
  cases hsplit

section Packet

variable {packet : Forwarded} {accept ipv6 : Bool} {address network : IpAddr} {len : Nat}

/-- The packet comes from the address and goes into the network. -/
def Forwarded.between (packet : Forwarded) (address network : IpAddr) (len : Nat) : Bool :=
  address == packet.source && cidrContains network len packet.destination

/-- The verdict of a rule that the agent writes for a source and a destination. -/
theorem forwardVerdict_rule (hlen : len ≤ width network.isIpv4) {protocol port : Option String}
    (hprotocol : ∀ word ∈ protocol, Operand word) (hport : ∀ word ∈ port, Operand word)
    (tcp : Bool) :
    forwardVerdict (Selectors.rule ⟨some address.toText, some (cidrText network len),
      protocol, port⟩
        (decision accept :: options accept ipv6 tcp)) packet =
      decideWhen (packet.between address network len &&
        (protocol.all (fun name => protocolNumber name == some packet.protocol) &&
          port.all (portMatches packet.port))) accept := by
  have hplain : Selectors.Plain ⟨some address.toText, some (cidrText network len), protocol,
      port⟩ := by
    refine ⟨?_, ?_, hprotocol, hport⟩
    · intro word hword
      cases hword
      exact operand_of_address (IpAddr.parse_toText address)
    · intro word hword
      cases hword
      exact operand_cidrText network len
  have hoptions := options_operands accept ipv6 tcp
  unfold forwardVerdict
  rw [(ruleValue_selectors hplain (decision_operands hoptions accept)).2.1,
    ruleVerdict_rule hplain hoptions]
  simp only [Option.all_some, inNetwork_cidrText hlen, IpAddr.parse_toText, Forwarded.between,
    Option.some_beq_some]
  -- the destination is asked first, the rest together
  cases cidrContains network len packet.destination with
  | false => simp [decideWhen]
  | true => simp [decideWhen, and_assoc]

/-- The ports a specification stands for in an entry; an unreadable one denies the whole protocol
and allows nothing. -/
def specFor (accept : Bool) (spec : String) (port : Nat) : Bool :=
  match iptablesPort spec with
  | some _ => specCovers spec port
  | none => !accept && (1 ≤ port && port ≤ 65535)

/-- The packets an entry's service is for, whatever its specifications are. -/
def served (accept ipv6 : Bool) (service : ForwardService) (conn : Connection) : Bool :=
  service.all || (conn.protocol = 6 && service.tcp.any (specFor accept · conn.port)) ||
    (conn.protocol = 17 && service.udp.any (specFor accept · conn.port)) ||
    (service.icmp && conn.protocol = if ipv6 then 58 else 1)

/-- A rule for the ports a word stands for. -/
theorem forwardVerdict_port (hlen : len ≤ width network.isIpv4) (tcp : Bool) {word : String}
    (hoperand : Operand word) {covers : Nat → Bool}
    (hcovers : ∀ port, portMatches port word = covers port) :
    forwardVerdict (["-s", address.toText, "-d", cidrText network len] ++
        ["-p", if tcp then "tcp" else "udp", "--dport", word] ++ verdict accept ipv6 tcp) packet =
      decideWhen (packet.between address network len &&
        (packet.protocol = (if tcp then 6 else 17) && covers packet.port)) accept := by
  have hprotocol : ∀ word ∈ some (if tcp then "tcp" else "udp"), Operand word := by
    cases tcp <;> decide
  have hword : ∀ port ∈ some word, Operand port := by
    intro port hport
    exact Option.some.inj hport ▸ hoperand
  have hnumber : (protocolNumber (if tcp then "tcp" else "udp") == some packet.protocol) =
      decide (packet.protocol = if tcp then 6 else 17) := by
    apply beq_number
    cases tcp <;> rfl
  show forwardVerdict (Selectors.rule ⟨some address.toText, some (cidrText network len),
    some (if tcp then "tcp" else "udp"), some word⟩ (decision accept :: options accept ipv6 tcp))
    packet = _
  rw [forwardVerdict_rule hlen hprotocol hword tcp, Option.all_some, Option.all_some, hnumber,
    hcovers]

/-- The word that stands for every port. -/
theorem portMatches_every (port : Nat) :
    portMatches port "1:65535" = (decide (1 ≤ port) && decide (port ≤ 65535)) := by
  have hword : portText (1, 65535) = "1:65535" := by decide
  rw [← hword, portMatches_portText (by decide) (by decide)]

section

variable (hlen : len ≤ width network.isIpv4)
include hlen

theorem walk_portRules (tcp : Bool) (specs : List String) :
    walk forwardVerdict
        (portRules ["-s", address.toText, "-d", cidrText network len] accept ipv6 tcp
          specs) packet =
      decideWhen (packet.between address network len &&
        (packet.protocol = (if tcp then 6 else 17) &&
          specs.any (specFor accept · packet.port))) accept := by
  have hwalk : walk forwardVerdict
      (portRules ["-s", address.toText, "-d", cidrText network len] accept ipv6 tcp specs) packet =
        decideWhen (specs.any fun spec => packet.between address network len &&
          (packet.protocol = (if tcp then 6 else 17) &&
            specFor accept spec packet.port)) accept := by
    apply walk_filterMap
    intro spec _
    cases hport : iptablesPort spec with
    | some word =>
      obtain ⟨hoperand, hcovers⟩ := iptablesPort_covers hport
      simp only [Option.map_some, Option.toList_some, walk_singleton]
      rw [forwardVerdict_port hlen tcp hoperand hcovers, specFor, hport]
    | none =>
      cases accept with
      | true => simp [specFor, hport, walk, decideWhen]
      | false =>
        simp only [Option.map_some, Option.toList_some, walk_singleton]
        rw [forwardVerdict_port hlen tcp (by decide) portMatches_every, specFor, hport]
        simp only [Bool.not_false, Bool.true_and]
  rw [hwalk]
  congr 1
  -- the protocol and the addresses are asked of every rule
  cases packet.between address network len with
  | false => simp
  | true => cases hprotocol : decide (packet.protocol = if tcp then 6 else 17) <;> simp

/-- The rule for ICMP of the family. -/
theorem forwardVerdict_icmp :
    forwardVerdict (["-s", address.toText, "-d", cidrText network len] ++
        ["-p", if ipv6 then "icmpv6" else "icmp"] ++ verdict accept ipv6 false) packet =
      decideWhen (packet.between address network len &&
        packet.protocol = (if ipv6 then 58 else 1)) accept := by
  have hprotocol : ∀ word ∈ some (if ipv6 then "icmpv6" else "icmp"), Operand word := by
    cases ipv6 <;> decide
  have hnumber : (protocolNumber (if ipv6 then "icmpv6" else "icmp") == some packet.protocol) =
      decide (packet.protocol = if ipv6 then 58 else 1) := by
    apply beq_number
    cases ipv6 <;> rfl
  show forwardVerdict (Selectors.rule ⟨some address.toText, some (cidrText network len),
    some (if ipv6 then "icmpv6" else "icmp"), none⟩ (decision accept :: options accept ipv6 false))
    packet = _
  rw [forwardVerdict_rule hlen hprotocol (by simp) false, Option.all_some, hnumber,
    Option.all_none, Bool.and_true]

theorem walk_sourceRules (service : ForwardService) :
    walk forwardVerdict
        (sourceRules accept ipv6 ["-s", address.toText, "-d", cidrText network len]
          service) packet =
      decideWhen (packet.between address network len &&
        served accept ipv6 service packet.toConnection) accept := by
  unfold sourceRules served
  cases hall : service.all with
  | true =>
    -- one rule for everything between the two
    simp only [if_true, Bool.true_or, Bool.and_true, walk_singleton]
    show forwardVerdict (Selectors.rule ⟨some address.toText, some (cidrText network len), none,
      none⟩ (decision accept :: options accept ipv6 false)) packet = _
    rw [forwardVerdict_rule hlen (by simp) (by simp) false]
    simp
  | false =>
    have hicmp : walk forwardVerdict
        (if service.icmp then
          [["-s", address.toText, "-d", cidrText network len] ++
            ["-p", if ipv6 then "icmpv6" else "icmp"] ++ verdict accept ipv6 false]
        else []) packet = decideWhen (packet.between address network len &&
          (service.icmp && packet.protocol = (if ipv6 then 58 else 1))) accept := by
      cases service.icmp with
      | true =>
        rw [if_pos rfl, walk_singleton, forwardVerdict_icmp hlen, Bool.true_and]
      | false => simp [walk, decideWhen]
    simp only [Bool.false_eq_true, if_false, walk_append, walk_portRules hlen true,
      walk_portRules hlen false, hicmp, decideWhen_or, Bool.false_or, if_true]
    rw [← Bool.and_or_distrib_left, ← Bool.and_or_distrib_left]

end

end Packet

/-! ## Entries -/

section Entry

theorem parse_len {network : IpAddr} {len : Nat}
    {text : String} {hostOnly : Bool} (h : parse text hostOnly = some (network, len)) :
    len ≤ width network.isIpv4 := by
  have hlast : ∀ (address : IpAddr) (length : Nat),
      (if width address.isIpv4 < length || (hostOnly && length ≠ width address.isIpv4) then none
        else some (address, length)) = some (network, len) → len ≤ width network.isIpv4 := by
    intro address length hread
    split_ifs at hread with hlong
    cases hread
    simp only [Bool.or_eq_true, decide_eq_true_eq, not_or, not_lt] at hlong
    exact hlong.1
  unfold parse at h
  split at h
  · obtain ⟨address, -, h⟩ := Option.bind_eq_some_iff.mp h
    obtain ⟨length, -, h⟩ := Option.bind_eq_some_iff.mp h
    exact hlast address length h
  · obtain ⟨address, -, h⟩ := Option.bind_eq_some_iff.mp h
    exact hlast address _ h

/-- What the rules of one source ask of a packet, whatever the specifications are. -/
def sourceFor (accept : Bool) (packet : Forwarded) (network : IpAddr) (len : Nat)
    (service : ForwardService) (source : String) : Bool :=
  match parse (Text.trim source) true with
  | none => false
  | some (address, _) =>
    decide (address.isIpv4 = network.isIpv4 ∧ address.isIpv6 = packet.destination.isIpv6) &&
      (packet.between address network len &&
        served accept packet.destination.isIpv6 service packet.toConnection)

def entryFor (accept : Bool) (packet : Forwarded) (entry : ForwardRule) : Bool :=
  match parse (Text.trim entry.destination) false with
  | none => false
  | some (network, len) => entry.sources.any (sourceFor accept packet network len entry.service)

theorem walk_entryRules_for (accept : Bool) (entry : ForwardRule) (packet : Forwarded) :
    walk forwardVerdict (entryRules accept packet.destination.isIpv6 entry) packet =
      decideWhen (entryFor accept packet entry) accept := by
  unfold entryRules entryFor
  cases hdestination : parse (Text.trim entry.destination) false with
  | none => rfl
  | some parsed =>
    apply walk_flatMap
    intro source _
    unfold sourceFor
    cases parse (Text.trim source) true with
    | none => rfl
    | some parsed =>
      dsimp only
      split
      · next hsame =>
        rw [walk_sourceRules (parse_len hdestination), decide_eq_true hsame, Bool.true_and]
      · next hother =>
        rw [decide_eq_false hother]
        rfl

end Entry

/-! ## Filters -/

/-- The ports a specification covers, where an unreadable one of a deny entry covers them all. -/
def Covers (accept : Bool) (spec : String) (port : Nat) : Prop :=
  specCovers spec port ∨
    accept = false ∧ iptablesPort spec = none ∧ 1 ≤ port ∧ port ≤ 65535

/-- The service is for the packet: for everything, for its port, or for ICMP of its family. -/
def Serves (accept : Bool) (service : ForwardService) (packet : Forwarded) : Prop :=
  service.all ∨
    (packet.protocol = 6 ∧ ∃ spec ∈ service.tcp, Covers accept spec packet.port) ∨
    (packet.protocol = 17 ∧ ∃ spec ∈ service.udp, Covers accept spec packet.port) ∨
    service.icmp ∧ packet.protocol = if packet.destination.isIpv6 then 58 else 1

/-- The entry is for the packet: its destination is a prefix that contains the packet's, one of its
sources is the packet's host, of the same family, and its service is for the packet. -/
def Matches (accept : Bool) (entry : ForwardRule) (packet : Forwarded) : Prop :=
  ∃ network len, parse (Text.trim entry.destination) false = some (network, len) ∧
    cidrContains network len packet.destination ∧
    (∃ source ∈ entry.sources, ∃ hostLen,
      parse (Text.trim source) true = some (packet.source, hostLen)) ∧
    packet.source.isIpv4 = network.isIpv4 ∧ Serves accept entry.service packet

section AnyFilter

variable {packet : Forwarded} {accept : Bool}

theorem specFor_iff {spec : String} {port : Nat} :
    specFor accept spec port ↔ Covers accept spec port := by
  unfold specFor Covers
  cases hport : iptablesPort spec with
  | some word => simp
  | none =>
    rw [specCovers_of_unreadable hport]
    cases accept <;> simp

theorem served_iff {service : ForwardService} :
    served accept packet.destination.isIpv6 service packet.toConnection ↔
      Serves accept service packet := by
  simp only [served, Serves, Bool.or_eq_true, Bool.and_eq_true, List.any_eq_true, specFor_iff,
    decide_eq_true_eq, or_assoc]

theorem entryFor_iff {entry : ForwardRule} :
    entryFor accept packet entry ↔ Matches accept entry packet := by
  unfold entryFor Matches
  cases hdestination : parse (Text.trim entry.destination) false with
  | none =>
    refine ⟨fun h => (nomatch h), fun h => ?_⟩
    obtain ⟨network, len, hnone, -⟩ := h
    cases hnone
  | some parsed =>
    obtain ⟨network, len⟩ := parsed
    rw [List.any_eq_true]
    constructor
    · rintro ⟨source, hmem, htest⟩
      unfold sourceFor at htest
      split at htest
      · cases htest
      · next address hostLen hsource =>
        simp only [Forwarded.between, Bool.and_eq_true, decide_eq_true_eq, beq_iff_eq] at htest
        obtain ⟨⟨hfamily, -⟩, ⟨rfl, hcontains⟩, hserved⟩ := htest
        exact ⟨network, len, rfl, hcontains, ⟨source, hmem, hostLen, hsource⟩, hfamily,
          served_iff.mp hserved⟩
    · rintro ⟨network', len', hsame, hcontains, ⟨source, hmem, hostLen, hsource⟩, hfamily, hserves⟩
      cases hsame
      refine ⟨source, hmem, ?_⟩
      -- the network has the family of the destination it contains
      have hsix : packet.source.isIpv6 = packet.destination.isIpv6 := by
        have hcontained := (cidrContains_iff.mp hcontains).1
        exact congrArg (!·) (hfamily.trans hcontained)
      unfold sourceFor
      rw [hsource]
      simp only [Forwarded.between, Bool.and_eq_true, decide_eq_true_eq, beq_iff_eq]
      exact ⟨⟨hfamily, hsix⟩, ⟨trivial, hcontains⟩, served_iff.mpr hserves⟩

/-- Nothing gets past the last rules. -/
theorem walk_finalRejects (ipv6 : Bool) :
    walk forwardVerdict (finalRejects ipv6) packet = some false := by
  have hsame : walk forwardVerdict (finalRejects ipv6) packet =
      walk ruleVerdict ((finalReject ipv6).map fun rule => rule.drop 2)
        packet.toConnection := by
    cases ipv6 <;> rfl
  rw [hsame, walk_finalReject]

/-- Denies come first, and the last rules answer for what neither decides. -/
theorem accepts_eq {filter : ForwardFilter} {denied allowed : Bool}
    (hdeny : walk forwardVerdict (filter.deny.flatMap (entryRules false packet.destination.isIpv6))
      packet = decideWhen denied false)
    (hallow : walk forwardVerdict (filter.allow.flatMap (entryRules true packet.destination.isIpv6))
      packet = decideWhen allowed true) :
    accepts filter packet = (!denied && allowed) := by
  have hestablished : forwardVerdict established packet = none := rfl
  unfold accepts plan
  rw [walk_append, walk_append, walk_cons, hdeny, hallow, walk_finalRejects]
  cases denied with
  | true => rfl
  | false =>
    cases allowed with
    | true | false => rfl

theorem accepts_iff (filter : ForwardFilter) (packet : Forwarded) :
    accepts filter packet ↔
      (∃ entry ∈ filter.allow, Matches true entry packet) ∧
        ¬∃ entry ∈ filter.deny, Matches false entry packet := by
  rw [accepts_eq (walk_flatMap fun entry _ => walk_entryRules_for false entry packet)
    (walk_flatMap fun entry _ => walk_entryRules_for true entry packet),
    Bool.and_eq_true, Bool.not_eq_true', ← Bool.not_eq_true, List.any_eq_true, List.any_eq_true]
  simp only [entryFor_iff]
  exact and_comm

end AnyFilter

/-- For every filter and every new packet, the chain accepts exactly what some allow entry is for
and no deny entry is; so the order of the entries does not matter. -/
theorem chain_verdict (filter : ForwardFilter) (packet : Forwarded) :
    (accepts filter packet ↔
      (∃ entry ∈ filter.allow, Matches true entry packet) ∧
        ¬∃ entry ∈ filter.deny, Matches false entry packet) ∧
    ∀ other : ForwardFilter, other.deny.Perm filter.deny → other.allow.Perm filter.allow →
      accepts other packet = accepts filter packet := by
  refine ⟨accepts_iff filter packet, fun other hdeny hallow => ?_⟩
  rw [Bool.eq_iff_iff, accepts_iff, accepts_iff]
  simp only [hdeny.mem_iff, hallow.mem_iff]

/-! ## What `permits` computes -/

/-- A prefix written as the coordinator writes prefixes. -/
def Written (text : String) (network : IpAddr) (len : Nat) : Prop :=
  len ≤ width network.isIpv4 ∧ text = cidrText network len

/-- Every port specification can be read. -/
def Readable (specs : List String) : Prop :=
  ∀ spec ∈ specs, ∃ range, parseAclPortSpec spec = .ok range

def ReadableService (service : ForwardService) : Prop :=
  Readable service.tcp ∧ Readable service.udp

theorem trim_cidrText (address : IpAddr) (len : Nat) :
    Text.trim (cidrText address len) = cidrText address len := by
  apply Text.trim_eq_self
  intro c hc
  unfold cidrText at hc
  rw [String.toList_append, String.toList_append, List.mem_append, List.mem_append] at hc
  rcases hc with (hc | hc) | hc
  · exact toText_no_space address c hc
  · rw [List.mem_singleton.mp hc]
    decide
  · exact Text.toString_no_space len c hc

theorem parse_cidrText {address : IpAddr} {hostOnly : Bool} (hlen : len ≤ width address.isIpv4)
    (hhost : hostOnly → len = width address.isIpv4) :
    parse (Text.trim (cidrText address len)) hostOnly = some (address, len) := by
  have hbound : len ≤ 255 := by
    unfold width at hlen
    split at hlen <;> omega
  unfold parse
  rw [trim_cidrText, splitOnce_cidrText]
  simp only [IpAddr.parse_toText, Text.parseU8_toString hbound, Option.bind_eq_bind,
    Option.bind_some]
  rw [if_neg]
  simp only [Bool.or_eq_true, decide_eq_true_eq, Bool.and_eq_true, not_or, not_and, not_lt]
  exact ⟨hlen, fun h => by simp [hhost h]⟩

/-- The packet is one that `policy explain` asks about with this protocol and port. -/
def Asks (protocol : AclProtocol) (port : Option Nat) (packet : Forwarded) : Prop :=
  match protocol with
  | .tcp => packet.protocol = 6 ∧ port = some packet.port
  | .udp => packet.protocol = 17 ∧ port = some packet.port
  | .icmp => packet.protocol = if packet.destination.isIpv6 then 58 else 1

/-- A single address lies in a written prefix exactly if the network contains it. -/
theorem cidrWithin_address {text : String} (htext : Written text network len) (address : IpAddr) :
    cidrWithin (cidrText address (width address.isIpv4)) text =
      cidrContains network len address := by
  obtain ⟨hlen, rfl⟩ := htext
  have hself := lead_maskAddr address (width address.isIpv4)
  have hnetwork := lead_maskAddr network len
  rw [Bool.eq_iff_iff, cidrWithin_iff (parseCidr_cidrText le_rfl) (parseCidr_cidrText hlen),
    cidrContains_iff]
  unfold Cidr.Within Cidr.block Block.Within
  simp only [maskAddr_isIpv4, hnetwork]
  constructor
  · rintro ⟨hfamily, hshort, hlead⟩
    rw [← hfamily] at hlead ⊢
    exact ⟨rfl, (Block.lead_mono hshort le_rfl hself ▸ hlead).symm⟩
  · rintro ⟨hfamily, hlead⟩
    rw [hfamily] at hlen hlead ⊢
    exact ⟨rfl, hlen, (Block.lead_mono hlen le_rfl hself).trans hlead.symm⟩

/-- An entry as the coordinator sends it for a client. -/
structure Sent (sources : List String) (entry : ForwardRule) : Prop where
  sources : entry.sources = sources
  destination : ∃ network len, Written entry.destination network len
  service : ReadableService entry.service

section Sent

variable {packet : Forwarded} {sources : List String} {protocol : AclProtocol} {port : Option Nat}
  {accept : Bool}

theorem covers_readable {spec : String} {range : Nat × Nat}
    (hspec : parseAclPortSpec spec = .ok range) {port : Nat} :
    Covers accept spec port ↔ specCovers spec port := by
  have hport : iptablesPort spec = some (portText range) := by
    rw [iptablesPort_eq, hspec]
    rfl
  simp [Covers, hport]

theorem serves_iff_admits (hasks : Asks protocol port packet) {service : ForwardService}
    (hservice : ReadableService service) :
    Serves accept service packet ↔ service.admits (some protocol) port := by
  have hcovers : ∀ specs, Readable specs →
      ((∃ spec ∈ specs, Covers accept spec packet.port) ↔ specsCover specs packet.port) := by
    intro specs hreadable
    rw [specsCover, List.any_eq_true]
    refine exists_congr fun spec => and_congr_right fun hspec => ?_
    obtain ⟨range, hrange⟩ := hreadable spec hspec
    exact covers_readable hrange
  unfold Serves ForwardService.admits
  rw [hcovers _ hservice.1, hcovers _ hservice.2]
  cases protocol with
  | tcp | udp =>
    obtain ⟨hprotocol, rfl⟩ := hasks
    cases packet.destination.isIpv6 <;> simp [hprotocol, coversPort]
  | icmp =>
    have hprotocol : packet.protocol = if packet.destination.isIpv6 then 58 else 1 := hasks
    cases hsix : packet.destination.isIpv6 <;> simp [hprotocol, hsix]

/-- An entry with the packet's source among its own is for what goes into its network with its
service. -/
theorem matches_iff_admits {entry : ForwardRule} (hsent : Sent sources entry)
    (hsource : cidrText packet.source (width packet.source.isIpv4) ∈ sources)
    (hfamily : packet.source.isIpv4 = packet.destination.isIpv4)
    (hasks : Asks protocol port packet) :
    Matches accept entry packet ↔
      (cidrWithin (cidrText packet.destination (width packet.destination.isIpv4))
        entry.destination && entry.service.admits (some protocol) port) := by
  obtain ⟨hsources, ⟨network, len, hwritten⟩, hservice⟩ := hsent
  have hparse : parse (Text.trim entry.destination) false = some (network, len) := by
    rw [hwritten.2]
    exact parse_cidrText hwritten.1 (by simp)
  rw [Bool.and_eq_true, cidrWithin_address hwritten, ← serves_iff_admits hasks hservice]
  constructor
  · rintro ⟨network', len', hparse', hcontains, -, -, hserves⟩
    cases hparse.symm.trans hparse'
    exact ⟨hcontains, hserves⟩
  · rintro ⟨hcontains, hserves⟩
    have hnetwork := (cidrContains_iff.mp hcontains).1
    exact ⟨network, len, hparse, hcontains,
      ⟨_, hsources ▸ hsource, _, parse_cidrText le_rfl fun _ => rfl⟩,
      hfamily.trans hnetwork.symm, hserves⟩

/-- For entries as the coordinator sends them, the chain accepts what `permits` computes. -/
theorem accepts_eq_permits {filter : ForwardFilter}
    (hdeny : ∀ entry ∈ filter.deny, Sent sources entry)
    (hallow : ∀ entry ∈ filter.allow, Sent sources entry)
    (hsource : cidrText packet.source (width packet.source.isIpv4) ∈ sources)
    (hfamily : packet.source.isIpv4 = packet.destination.isIpv4)
    (hasks : Asks protocol port packet) :
    accepts filter packet = filter.permits
      (cidrText packet.destination (width packet.destination.isIpv4)) (some protocol) port := by
  have hentries : ∀ (accept : Bool) (entries : List ForwardRule),
      (∀ entry ∈ entries, Sent sources entry) →
      ((∃ entry ∈ entries, Matches accept entry packet) ↔ (entries.any fun entry =>
        cidrWithin (cidrText packet.destination (width packet.destination.isIpv4))
          entry.destination && entry.service.admits (some protocol) port)) := by
    intro accept entries hsent
    rw [List.any_eq_true]
    exact exists_congr fun entry => and_congr_right fun hentry =>
      matches_iff_admits (hsent entry hentry) hsource hfamily hasks
  rw [Bool.eq_iff_iff, accepts_iff, hentries true _ hallow, hentries false _ hdeny]
  unfold ForwardFilter.permits ForwardFilter.admits
  simp only [List.any_filter]
  split
  · next hdenied => simp [hdenied]
  · next hdenied => simp [hdenied]

end Sent

/-! ## What the coordinator sends -/

theorem readable_append {left right : List String} (hleft : Readable left)
    (hright : Readable right) :
    Readable (extendText [] (left ++ right)) := by
  intro spec hspec
  simp only [mem_extendText, List.not_mem_nil, false_or, List.mem_append] at hspec
  exact hspec.elim (hleft spec) (hright spec)

theorem readable_nil : Readable [] := nofun

theorem readable_empty : ReadableService {} := ⟨readable_nil, readable_nil⟩

theorem readable_everything : ReadableService .everything := ⟨readable_nil, readable_nil⟩

theorem readable_merge {service other : ForwardService} (hservice : ReadableService service)
    (hother : ReadableService other) : ReadableService (service.merge other) := by
  unfold ForwardService.merge
  split
  · exact readable_everything
  · exact ⟨readable_append hservice.1 hother.1, readable_append hservice.2 hother.2⟩

theorem readable_ruleService {rule : AclRule} (hports : Readable rule.dstPorts) :
    ReadableService (ruleService rule) := by
  have hany : Readable (insertText "1-65535" []) := by
    intro spec hspec
    rw [List.mem_singleton.mp hspec]
    exact ⟨(1, 65535), by decide⟩
  have hown : Readable (extendText [] rule.dstPorts) := by
    intro spec hspec
    rw [mem_extendText] at hspec
    exact hports spec (hspec.resolve_left List.not_mem_nil)
  -- for TCP and UDP alike: everything, the rule's own ports, or nothing
  have hif : ∀ (chosen : Bool) {specs : List String}, Readable specs →
      Readable (if chosen then specs else []) := by
    intro chosen specs hspecs
    cases chosen with
    | true => exact hspecs
    | false => exact readable_nil
  unfold ruleService collectServiceSpecs
  split
  · exact ⟨hif _ hany, hif _ hany⟩
  · exact ⟨hif _ hown, hif _ hown⟩

/-- The inputs as validation leaves them: port specifications that can be read, and prefixes as
the coordinator writes them. -/
structure Validated (acl : Acl) (distribution : Distribution) (router : RouterView) : Prop where
  ports : ∀ rule ∈ acl.rules, Readable rule.dstPorts
  hosts : ∀ host ∈ acl.hosts, ∀ named, hostCidr host.2 = some named →
    ∃ network len, Written named network len
  services : ∀ route ∈ distribution.routes, ReadableService route.service
  prefixes : ∀ key, Carries distribution router key → ∃ network len, Written key network len

section Compiled

variable {acl : Acl} {now : Int} {distribution : Distribution} {router : RouterView}
  {client : ClientView} {sources : List String}

/-- Both services of a named host can be read. -/
def ReadableServices (services : ForwardService × ForwardService) : Prop :=
  ReadableService services.1 ∧ ReadableService services.2

theorem addHostRule_readable (services : ForwardService × ForwardService) (rule : AclRule)
    (hrule : Readable rule.dstPorts) (hservices : ReadableServices services) :
    ReadableServices (addHostRule services rule) := by
  have hadded := readable_ruleService hrule
  unfold addHostRule
  split
  · exact ⟨readable_merge hservices.1 hadded, hservices.2⟩
  · split
    · exact ⟨hservices.1, readable_merge hservices.2 hadded⟩
    · exact hservices

theorem hostServices_readable (hports : ∀ rule ∈ acl.rules, Readable rule.dstPorts)
    (name : String) :
    ReadableServices (hostServices acl client name) := by
  apply run_invariant_all addHostRule_readable
  · intro rule hrule
    exact hports rule (List.mem_filter.mp hrule).1
  · exact ⟨readable_empty, readable_empty⟩

/-- Every service of the map can be read. -/
def ReadableGrants (grants : List (String × ForwardService)) : Prop :=
  ∀ key service, grants.lookup key = some service → ReadableService service

theorem addGrant_readable (grants : List (String × ForwardService))
    (grant : String × ForwardService) (hgrant : ReadableService grant.2)
    (hgrants : ReadableGrants grants) : ReadableGrants (addGrant grants grant) := by
  intro key service hservice
  unfold addGrant at hservice
  rw [lookup_insertKey] at hservice
  split at hservice
  · cases hservice
    apply readable_merge _ hgrant
    cases hold : grants.lookup grant.1 with
    | none => exact readable_empty
    | some old => exact hgrants grant.1 old hold
  · exact hgrants key service hservice

theorem grants_readable (hservices : ∀ route ∈ distribution.routes, ReadableService route.service) :
    ∀ grant ∈ grants acl distribution router client, ReadableService grant.2 := by
  have hreadable : ReadableGrants (grants acl distribution router client) := by
    apply run_invariant_all addGrant_readable
    · intro grant hgrant
      obtain ⟨route, hroute, -, -, rfl⟩ := mem_grantsVia.mp hgrant
      exact hservices route hroute
    · intro key service hservice
      rw [lookup_approved] at hservice
      obtain ⟨-, heverything⟩ := Option.ite_none_right_eq_some.mp hservice
      exact Option.some.inj heverything ▸ readable_everything
  intro grant hgrant
  exact hreadable grant.1 grant.2 (grants_ascend.mem_iff.mp hgrant)

theorem clientEntry_sent {destination : String} {service : ForwardService}
    (hdestination : ∃ network len, Written destination network len)
    (hservice : ReadableService service) :
    Sent sources (clientEntry client sources destination service) :=
  ⟨rfl, hdestination, hservice⟩

theorem routedHosts_written (hvalid : Validated acl distribution router)
    {grants : List (String × ForwardService)} {routed : String × ForwardService × ForwardService}
    (hrouted : routed ∈ routedHosts acl client grants) :
    (∃ network len, Written routed.1 network len) ∧ ReadableServices routed.2 := by
  obtain ⟨host, hhost, hrouted⟩ := List.mem_filterMap.mp hrouted
  obtain ⟨named, hnamed, hrouted⟩ := Option.bind_eq_some_iff.mp hrouted
  obtain ⟨-, hrouted⟩ := Option.ite_none_right_eq_some.mp hrouted
  cases hrouted
  exact ⟨hvalid.hosts host hhost named hnamed, hostServices_readable hvalid.ports host.1⟩

theorem denyEntries_sent (hvalid : Validated acl distribution router) :
    ∀ entry ∈ denyEntries acl distribution router client sources
      (grants acl distribution router client), Sent sources entry := by
  intro entry hentry
  rcases List.mem_append.mp hentry with hcarried | hhost
  · split at hcarried
    · obtain ⟨key, hkey, rfl⟩ := List.mem_map.mp hcarried
      have hcarries := mem_carried.mp (List.mem_filter.mp hkey).1
      exact clientEntry_sent (hvalid.prefixes key hcarries) readable_everything
    · cases hcarried
  · obtain ⟨routed, hrouted, rfl⟩ := List.mem_map.mp hhost
    obtain ⟨hwritten, hservices⟩ := routedHosts_written hvalid (List.mem_filter.mp hrouted).1
    exact clientEntry_sent hwritten hservices.1

/-- The parts of an exit route are written as prefixes. -/
theorem complement_written {route : String} (hroute : isDefaultRoute route)
    (excluded : List String) :
    ∀ part ∈ complement route excluded, ∃ network len, Written part network len := by
  obtain ⟨network, hparse⟩ := parseCidr_default hroute
  intro part hpart
  rw [complement_eq hparse] at hpart
  obtain ⟨block, hblock, rfl⟩ := List.mem_map.mp hpart
  obtain ⟨hlen, -⟩ := Block.split_within le_rfl (Nat.dvd_zero _) block hblock
  refine ⟨_, _, ?_, rfl⟩
  rw [addressOf_isIpv4]
  exact hlen

theorem allowEntries_sent (hvalid : Validated acl distribution router) :
    ∀ entry ∈ allowEntries acl distribution router client sources
      (grants acl distribution router client), Sent sources entry := by
  intro entry hentry
  rcases List.mem_append.mp hentry with hhost | hgrant
  · obtain ⟨routed, hrouted, rfl⟩ := List.mem_map.mp hhost
    obtain ⟨hwritten, hservices⟩ := routedHosts_written hvalid (List.mem_filter.mp hrouted).1
    exact clientEntry_sent hwritten hservices.2
  · obtain ⟨grant, hmem, hentry⟩ := List.mem_flatMap.mp hgrant
    have hservice := grants_readable hvalid.services grant hmem
    split at hentry
    · next hdefault =>
      obtain ⟨part, hpart, rfl⟩ := List.mem_map.mp hentry
      exact clientEntry_sent (complement_written hdefault _ part hpart) hservice
    · next hplain =>
      cases List.mem_singleton.mp hentry
      -- a given prefix that is no default route is one that the router carries
      have hgiven : Given acl distribution router client grant.1 := by
        rw [← grants_isSome, grants_ascend.mem_iff.mp hmem]
        rfl
      have hcarries : Carries distribution router grant.1 := by
        refine ⟨by simpa using hplain, ?_⟩
        rcases hgiven.2 with happroved | ⟨route, hroute, husable, hcidr⟩
        · exact .inl happroved
        · exact .inr (.inr (.inl ⟨route, hroute, husable.1, hcidr⟩))
      exact clientEntry_sent (hvalid.prefixes grant.1 hcarries) hservice

theorem compileClient_sent (hvalid : Validated acl distribution router) :
    (∀ entry ∈ (compileClient acl now distribution router client {}).deny,
        Sent (hostAddresses client.overlay) entry) ∧
      ∀ entry ∈ (compileClient acl now distribution router client {}).allow,
        Sent (hostAddresses client.overlay) entry := by
  have hempty : ∀ entry ∈ ([] : List ForwardRule), Sent (hostAddresses client.overlay) entry :=
    nofun
  unfold compileClient
  dsimp only
  split
  · exact ⟨hempty, hempty⟩
  split
  · exact ⟨hempty, hempty⟩
  split
  · exact ⟨hempty, hempty⟩
  · exact ⟨denyEntries_sent hvalid, allowEntries_sent hvalid⟩

/-- What `policy explain` computes for a client is what the router's chain does. -/
theorem explain_agrees {packet : Forwarded} {protocol : AclProtocol} {port : Option Nat}
    (hvalid : Validated acl distribution router)
    (hsource : cidrText packet.source (width packet.source.isIpv4) ∈ client.overlay)
    (hfamily : packet.source.isIpv4 = packet.destination.isIpv4)
    (hasks : Asks protocol port packet) :
    (compileClient acl now distribution router client {}).permits
        (cidrText packet.destination (width packet.destination.isIpv4)) (some protocol) port ↔
      walk forwardVerdict
        (plan (compileClient acl now distribution router client {}) packet.destination.isIpv6)
        packet = some true := by
  obtain ⟨hdeny, hallow⟩ := compileClient_sent hvalid
  have hhost : cidrText packet.source (width packet.source.isIpv4) ∈
      hostAddresses client.overlay := by
    apply List.mem_filter.mpr
    refine ⟨hsource, ?_⟩
    rw [parseCidr_cidrText le_rfl]
    simp [maskAddr_isIpv4]
  rw [← accepts_eq_permits hdeny hallow hhost hfamily hasks]
  exact decide_eq_true_iff

/-- A router with one approved prefix, and a policy that denies SSH to one host in it. -/
def branchRouter : RouterView where
  id := 1
  approved := ["10.20.1.0/24"]

def branchAcl : Acl where
  hosts := [("db", "10.20.1.5")]
  rules := [{ action := .deny, dstHosts := ["db"], dstPorts := ["22"], protocols := [.tcp] }]

def branchClient : ClientView where
  id := 2
  overlay := ["100.64.0.2/32"]

def toBranch (port : Nat) : Forwarded where
  source := .v4 (BitVec.ofNat 32 0x64400002)
  destination := .v4 (BitVec.ofNat 32 0x0a140105)
  protocol := 6
  port := port

theorem branch_validated : Validated branchAcl {} branchRouter where
  ports := by
    intro rule hrule spec hspec
    rw [List.mem_singleton.mp hrule] at hspec
    rw [List.mem_singleton.mp hspec]
    exact ⟨(22, 22), by decide⟩
  hosts := by
    intro host hhost named hnamed
    rw [List.mem_singleton.mp hhost] at hnamed
    have hwritten : hostCidr "10.20.1.5" = some (cidrText (toBranch 22).destination 32) := by
      decide +kernel
    exact ⟨_, 32, by decide, (Option.some.inj hnamed).symm⟩
  services := nofun
  prefixes := by
    rintro key ⟨-, happroved | hadvertised | ⟨route, hroute, -⟩ | ⟨peers, hreserved, -⟩⟩
    · rw [List.mem_singleton.mp happroved]
      exact ⟨.v4 (BitVec.ofNat 32 0x0a140100), 24, by decide, by decide +kernel⟩
    · cases hadvertised
    · cases hroute
    · cases hreserved

/-- SSH to the host is refused, HTTPS accepted. -/
theorem explain_agrees_branch :
    walk forwardVerdict (plan (compileClient branchAcl 0 {} branchRouter branchClient {})
        false) (toBranch 443) = some true ∧
      ¬ walk forwardVerdict
        (plan (compileClient branchAcl 0 {} branchRouter branchClient {}) false) (toBranch 22) =
          some true := by
  have hsource : ∀ port, cidrText (toBranch port).source 32 ∈ branchClient.overlay := by
    intro port
    show cidrText (.v4 (BitVec.ofNat 32 0x64400002)) 32 ∈ ["100.64.0.2/32"]
    decide +kernel
  have hasks : ∀ port, Asks .tcp (some port) (toBranch port) := fun port => ⟨rfl, rfl⟩
  constructor
  · apply (explain_agrees branch_validated (hsource 443) rfl (hasks 443)).mp
    decide +kernel
  · apply mt (explain_agrees branch_validated (hsource 22) rfl (hasks 22)).mpr
    decide +kernel

end Compiled

end Agent

end BlakTail.Forwarding
