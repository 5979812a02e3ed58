import BlakTail.Firewall.Grants

/-!
# The macOS Anchor

On macOS the same grants become a `pf` anchor on the tunnel interface.  Rules are kept as the text
that is loaded; every rule is `quick`, so the first that matches decides.  What a rule makes of a
new connection is read off its words.

The rules of an address are those of a dialect (`pf_reads`), and `accepts_pfPlan` says what the
whole anchor makes of a connection.
-/

namespace BlakTail.Firewall

open Foundation Foundation.Netfilter Control Access PacketTable

structure PfPlan where
  enforce : Bool := false
  rules : List String := []

/-- A range of ports as `pf` takes it, and its first port. -/
def pfPort (spec : String) : Option (String × Nat) := do
  let range ← iptablesPort spec
  let first := ((Text.splitOnce ':' range).getD (range, range)).1
  let start ← Text.parseU16 first
  some (range, start)

/-- Interface names come from the kernel (`utunN`). -/
def validInterface (name : String) : Bool :=
  "utun".toList.isPrefixOf name.toList && Text.byteLen name ≤ 15 &&
    (name.toList.drop 4).all Text.isAsciiDigit && 4 < Text.byteLen name

/-! ## Rules -/

def pfRule (accept : Bool) (interface : String) (selectors : List String) : String :=
  Text.join " " ((if accept then ["pass"] else ["block", "return"]) ++
    ["in", "quick", "on", interface] ++ selectors ++ if accept then ["keep", "state"] else [])

def pfPortRule (accept : Bool) (interface address protocol range : String) : String :=
  pfRule accept interface ["proto", protocol, "from", address, "to", "any", "port", range]

def pfIcmpRule (accept : Bool) (interface address : String) : String :=
  let ipv6 := address.toList.contains ':'
  pfRule accept interface [if ipv6 then "inet6" else "inet", "proto",
    if ipv6 then "icmp6" else "icmp",
    "from", address, "to", "any"]

def pfSourceRule (accept : Bool) (interface address : String) : String :=
  pfRule accept interface ["from", address, "to", "any"]

def pfAddressRules (interface : String) (peer : Peer) (address : String) : List String :=
  let ingress := peer.ingress.getD { all := true }
  let pqExchange := peer.pq.any fun pq => pq.mode ≠ .off && pq.capable
  let ports := fun (accept : Bool) (protocol : String) (specs : List String) =>
    (specs.filterMap pfPort).map fun range => pfPortRule accept interface address protocol range.1
  (if pqExchange then [pfPortRule true interface address "tcp" (toString PQ_PORT)] else []) ++
    ports false "tcp" ingress.denyTcp ++ ports false "udp" ingress.denyUdp ++
    (if ingress.denyIcmp then [pfIcmpRule false interface address] else []) ++
    if ingress.all then [pfSourceRule true interface address]
    else
      ports true "tcp" ingress.tcp ++ ports true "udp" ingress.udp ++
        (if ingress.icmp then [pfIcmpRule true interface address] else []) ++
        [pfSourceRule false interface address]

/-- A rule for this device's own flows, whose state carries the replies back in. -/
def pfOutRule (interface : String) (selectors : List String) : String :=
  Text.join " " (["pass", "out", "quick", "on", interface] ++ selectors ++
    ["flags", "any", "keep", "state"])

/-- The anchor; `none` for an interface that is no `utun` device. -/
def pfPlan (interface : String) (peers : List Peer) : Option PfPlan :=
  if !validInterface interface then none
  else if !(peers.any fun peer => peer.ingress.isSome) then some {}
  else some
    { enforce := true
      rules :=
        (peers.flatMap fun peer => (overlayHostAddrs peer.allowedIps).map fun address =>
          pfOutRule interface ["from", "any", "to", address]) ++
        [pfOutRule interface ["all"]] ++
        (peers.flatMap fun peer =>
          (overlayHostAddrs peer.allowedIps).flatMap (pfAddressRules interface peer)) ++
        [pfRule false interface ["all"]] }

/-! ## Verdicts -/

def pfProtocol (name : String) : Option Nat :=
  if name = "tcp" then some 6
  else if name = "udp" then some 17
  else if name = "icmp" then some 1
  else if name = "icmp6" then some 58
  else none

/-- Whether the words of a rule select a new inbound connection. -/
def pfMatches (words : List String) (conn : Connection) : Bool :=
  words.contains "in" && (!words.contains "inet" || conn.source.isIpv4) &&
    (!words.contains "inet6" || conn.source.isIpv6) &&
    (ruleValue words "proto").all (fun name => pfProtocol name == some conn.protocol) &&
    (ruleValue words "from").all (fun source => IpAddr.parse source == some conn.source) &&
    (ruleValue words "port").all (portMatches conn.port)

def pfVerdict (text : String) (conn : Connection) : Option Bool :=
  let words := Text.words text
  if pfMatches words conn then
    match words.head? with
    | some "pass" => some true
    | some "block" => some false
    | _ => none
  else none

/-- What the anchor accepts: everything when it does not enforce. -/
def PfPlan.accepts (plan : PfPlan) (conn : Connection) : Bool :=
  !plan.enforce || (walk pfVerdict plan.rules conn).getD true

/-! ## Words -/

/-- The words that select. -/
def pfKeywords : List String := ["in", "inet", "inet6", "proto", "from", "port"]

/-- One word of a rule that selects nothing by itself. -/
structure PfWord (word : String) : Prop where
  notEmpty : word ≠ ""
  noBlank : ' ' ∉ word.toList
  plain : word ∉ pfKeywords

theorem pfWord_address (address : IpAddr) : PfWord address.toText where
  notEmpty := IpAddr.toText_ne_empty address
  noBlank := fun hblank => absurd (IpAddr.toText_chars address ' ' hblank) (by decide)
  plain := by
    intro hkeyword
    have hnone : ∀ word ∈ pfKeywords, IpAddr.parse word = none := by decide
    have hparse := hnone _ hkeyword
    rw [IpAddr.parse_toText] at hparse
    cases hparse

variable {interface : String}

theorem pfWord_interface (h : validInterface interface) : PfWord interface := by
  simp only [validInterface, Bool.and_eq_true] at h
  obtain ⟨⟨⟨hfront, -⟩, hdigits⟩, -⟩ := h
  obtain ⟨rest, hrest⟩ := List.isPrefixOf_iff_prefix.mp hfront
  have hdrop : interface.toList.drop 4 = rest := by
    rw [← hrest]
    rfl
  rw [hdrop] at hdigits
  refine ⟨?_, ?_, ?_⟩
  · intro hempty
    rw [hempty] at hrest
    cases hrest
  · intro hblank
    rw [← hrest] at hblank
    rcases List.mem_append.mp hblank with hin | hin
    · exact absurd hin (by decide)
    · exact absurd (List.all_eq_true.mp hdigits ' ' hin) (by decide)
  · intro hkeyword
    have hnone : ∀ word ∈ pfKeywords, "utun".toList.isPrefixOf word.toList = false := by decide
    rw [hnone interface hkeyword] at hfront
    cases hfront

theorem pfWord_portText (bounds : Nat × Nat) : PfWord (portText bounds) := by
  have hchars : ∀ c ∈ (portText bounds).toList, (c.isDigit || c == ':') := by
    intro c hc
    unfold portText at hc
    split at hc
    · rw [Text.toString_digits c hc]
      rfl
    · rw [String.toList_append, String.toList_append, List.mem_append, List.mem_append] at hc
      rcases hc with (hc | hc) | hc
      · rw [Text.toString_digits c hc]
        rfl
      · rw [List.mem_singleton.mp hc]
        rfl
      · rw [Text.toString_digits c hc]
        rfl
  refine ⟨?_, fun hblank => absurd (hchars ' ' hblank) (by decide), ?_⟩
  · intro hempty
    have hdigit := portText_digit bounds
    rw [hempty] at hdigit
    cases hdigit
  · intro hkeyword
    have hnone : ∀ word ∈ pfKeywords,
        (word.toList.all fun c => c.isDigit || c == ':') = false := by decide
    have hall := List.all_eq_true.mpr hchars
    rw [hnone _ hkeyword] at hall
    cases hall

/-! ## Reading rules -/

theorem words_pfRule {selectors : List String} (hinterface : PfWord interface)
    (hselectors : ∀ word ∈ selectors, word ≠ "" ∧ ' ' ∉ word.toList) (accept : Bool) :
    Text.words (pfRule accept interface selectors) =
      (if accept then ["pass"] else ["block", "return"]) ++ ["in", "quick", "on", interface] ++
        selectors ++ if accept then ["keep", "state"] else [] := by
  apply Text.words_join
  intro word hword
  simp only [List.mem_append] at hword
  rcases hword with ((hword | hword) | hword) | hword
  · have hfixed : ∀ word ∈ (if accept then ["pass"] else ["block", "return"]),
        word ≠ "" ∧ ' ' ∉ word.toList := by
      cases accept <;> decide
    exact hfixed word hword
  · simp only [List.mem_cons, List.not_mem_nil, or_false] at hword
    rcases hword with rfl | rfl | rfl | rfl
    · decide
    · decide
    · decide
    · exact ⟨hinterface.notEmpty, hinterface.noBlank⟩
  · exact hselectors word hword
  · have hfixed : ∀ word ∈ (if accept then ["keep", "state"] else []),
        word ≠ "" ∧ ' ' ∉ word.toList := by
      cases accept <;> decide
    exact hfixed word hword

theorem PfWord.whole {word : String} (h : PfWord word) : word ≠ "" ∧ ' ' ∉ word.toList :=
  ⟨h.notEmpty, h.noBlank⟩

/-- A plain word is none of the words that are looked for. -/
theorem PfWord.apart {word : String} (h : PfWord word) :
    (word ≠ "proto" ∧ word ≠ "from" ∧ word ≠ "port") ∧ "inet" ≠ word ∧ "inet6" ≠ word := by
  have hplain := h.plain
  simp only [pfKeywords, List.mem_cons, List.not_mem_nil, or_false, not_or] at hplain
  obtain ⟨-, hinet, hinet6, hrest⟩ := hplain
  exact ⟨hrest, fun heq => hinet heq.symm, fun heq => hinet6 heq.symm⟩

section Verdict

variable {interface : String} (hinterface : PfWord interface) (address : IpAddr) (conn : Connection)
  (accept : Bool)

include hinterface

theorem pfVerdict_source :
    pfVerdict (pfSourceRule accept interface address.toText) conn =
      decideWhen (address == conn.source) accept := by
  have haddress := pfWord_address address
  have hwords : ∀ word ∈ ["from", address.toText, "to", "any"], word ≠ "" ∧ ' ' ∉ word.toList := by
    simp only [List.forall_mem_cons]
    exact ⟨by decide, haddress.whole, by decide, by decide, by simp⟩
  have hi := hinterface.apart
  have ha := haddress.apart
  unfold pfVerdict pfSourceRule
  rw [words_pfRule hinterface hwords]
  cases accept with
  | true | false => simp [pfMatches, ruleValue, hi, ha, decideWhen, IpAddr.parse_toText]

theorem pfVerdict_port (tcp : Bool) {spec word : String} (hword : iptablesPort spec = some word) :
    pfVerdict (pfPortRule accept interface address.toText (if tcp then "tcp" else "udp")
      word) conn =
      decideWhen (address == conn.source &&
        (conn.protocol = (if tcp then 6 else 17) && specCovers spec conn.port)) accept := by
  obtain ⟨bounds, -, rfl⟩ : ∃ bounds, (parseAclPortSpec spec).toOption = some bounds ∧
      portText bounds = word := by
    rw [iptablesPort_eq] at hword
    exact Option.map_eq_some_iff.mp hword
  have hcovers := (iptablesPort_covers hword).2
  have haddress := pfWord_address address
  have hrange := pfWord_portText bounds
  have hprotocol : (if tcp then "tcp" else "udp") ≠ "" ∧
      ' ' ∉ (if tcp then "tcp" else "udp").toList := by
    cases tcp <;> decide
  have hwords : ∀ word ∈ ["proto", if tcp then "tcp" else "udp", "from", address.toText,
      "to", "any",
      "port", portText bounds], word ≠ "" ∧ ' ' ∉ word.toList := by
    simp only [List.forall_mem_cons]
    exact ⟨by decide, hprotocol, by decide, haddress.whole, by decide, by decide, by decide,
      hrange.whole, by simp⟩
  have hnumber : (pfProtocol (if tcp then "tcp" else "udp") == some conn.protocol) =
      decide (conn.protocol = if tcp then 6 else 17) := by
    apply beq_number
    cases tcp <;> rfl
  have hi := hinterface.apart
  have ha := haddress.apart
  have hr := hrange.apart
  unfold pfVerdict pfPortRule
  rw [words_pfRule hinterface hwords, ← hcovers, ← hnumber]
  cases accept <;> cases tcp <;>
    simp [pfMatches, ruleValue, hi, ha, hr, decideWhen, IpAddr.parse_toText,
      and_assoc, and_left_comm]

theorem pfVerdict_icmp :
    pfVerdict (pfIcmpRule accept interface address.toText) conn =
      decideWhen (address == conn.source && ownIcmp address conn.protocol) accept := by
  have haddress := pfWord_address address
  have hwords : ∀ word ∈ [if address.isIpv6 then "inet6" else "inet", "proto",
      if address.isIpv6 then "icmp6" else "icmp", "from", address.toText, "to", "any"],
      word ≠ "" ∧ ' ' ∉ word.toList := by
    simp only [List.forall_mem_cons]
    refine ⟨?_, by decide, ?_, by decide, haddress.whole, by decide, by decide, by simp⟩
    · cases address.isIpv6 <;> decide
    · cases address.isIpv6 <;> decide
  have hnumber : (pfProtocol (if address.isIpv6 then "icmp6" else "icmp") == some conn.protocol) =
      ownIcmp address conn.protocol := by
    apply beq_number
    cases address.isIpv6 <;> rfl
  have hi := hinterface.apart
  have ha := haddress.apart
  unfold pfVerdict pfIcmpRule
  simp only [IpAddr.contains_colon]
  rw [words_pfRule hinterface hwords, ← hnumber]
  -- the family of the rule is that of its address
  by_cases hsource : conn.source = address
  · have hfour : address.isIpv4 = !address.isIpv6 := (Bool.not_not _).symm
    cases accept <;> cases hversion : address.isIpv6 <;>
      simp [pfMatches, ruleValue, hi, ha, decideWhen, IpAddr.parse_toText, hsource,
        hfour, hversion]
  · cases accept <;> cases address.isIpv6 <;>
      simp [pfMatches, ruleValue, hi, ha, decideWhen, IpAddr.parse_toText,
        Ne.symm hsource]

end Verdict

/-! ## The anchor -/

/-- The anchor's rules of one address. -/
def pfDialect (interface address : String) : Dialect String where
  port := fun accept tcp spec => (pfPort spec).map fun range =>
    pfPortRule accept interface address (if tcp then "tcp" else "udp") range.1
  icmp := fun accept => pfIcmpRule accept interface address
  whole := pfSourceRule true interface address
  rest := [pfSourceRule false interface address]

/-- The first port of a range can always be read. -/
theorem pfPort_fst (spec : String) : (pfPort spec).map Prod.fst = iptablesPort spec := by
  unfold pfPort
  rw [iptablesPort_eq]
  cases hspec : parseAclPortSpec spec with
  | error message => rfl
  | ok bounds =>
    have hbounds := parseAclPortSpec_bounds hspec
    have hcolon : ':' ∉ (toString bounds.1).toList := Text.toString_no (by decide)
    have hfirst : ((Text.splitOnce ':' (portText bounds)).getD
        (portText bounds, portText bounds)).1 = toString bounds.1 := by
      unfold portText
      split
      · rw [Text.splitOnce_eq_none hcolon]
        rfl
      · rw [Text.splitOnce_append hcolon rfl]
        rfl
    have hread : Text.parseU16 (toString bounds.1) = some bounds.1 :=
      Text.parseU16_toString (hbounds.2.1.trans hbounds.2.2)
    show ((Text.parseU16 ((Text.splitOnce ':' (portText bounds)).getD
      (portText bounds, portText bounds)).1).bind fun start =>
        some (portText bounds, start)).map Prod.fst = _
    rw [hfirst, hread]
    rfl

theorem pfAddressRules_eq (interface : String) (peer : Peer) (address : String) :
    pfAddressRules interface peer address =
      (pfDialect interface address).rules (runsExchange peer)
        (peer.ingress.getD { all := true }) := by
  have hexchange : ((pfDialect interface address).port true true (toString PQ_PORT)).toList =
      [pfPortRule true interface address "tcp" (toString PQ_PORT)] := by
    have hport : pfPort (toString PQ_PORT) = some (toString PQ_PORT, PQ_PORT) := by decide
    simp only [pfDialect, hport, Option.map_some, Option.toList_some, if_true]
  unfold pfAddressRules Dialect.rules runsExchange
  rw [hexchange]
  simp only [pfDialect, List.map_filterMap, if_true, Bool.false_eq_true, if_false]
  cases (peer.ingress.getD { all := true }).all with
  | true => simp only [if_true, List.append_assoc]
  | false => simp only [Bool.false_eq_true, if_false, List.append_assoc]

section

variable (hinterface : PfWord interface)
include hinterface

/-- What the anchor's rules for an address make of a connection. -/
theorem pf_reads (address : IpAddr) (conn : Connection) :
    (pfDialect interface address.toText).Reads pfVerdict conn (address == conn.source)
      (ownIcmp address conn.protocol) true conn.protocol conn.port where
  port := by
    intro accept tcp spec
    have hport : (pfDialect interface address.toText).port accept tcp spec =
        (iptablesPort spec).map
          (pfPortRule accept interface address.toText (if tcp then "tcp" else "udp")) := by
      rw [← pfPort_fst, Option.map_map]
      rfl
    rw [hport]
    cases hword : iptablesPort spec with
    | none => simp [specCovers_of_unreadable hword, walk, decideWhen]
    | some word =>
      rw [Option.map_some, Option.toList_some, walk_singleton]
      exact pfVerdict_port hinterface address conn accept tcp hword
  icmp := pfVerdict_icmp hinterface address conn
  whole := pfVerdict_source hinterface address conn true
  rest := by
    show walk pfVerdict [pfSourceRule false interface address.toText] conn = _
    rw [walk_singleton, pfVerdict_source hinterface, Bool.and_true]

theorem walk_pfAddressRules (peer : Peer) (address : IpAddr) (conn : Connection) :
    walk pfVerdict (pfAddressRules interface peer address.toText) conn =
      decideWhen (address.toText == conn.source.toText)
        (admits peer (ownIcmp conn.source conn.protocol) conn.protocol conn.port) := by
  rw [pfAddressRules_eq, Dialect.walk_rules (pf_reads hinterface address conn), or_reject,
    toText_beq]
  by_cases hsource : address = conn.source
  · rw [hsource]
    rfl
  · rw [beq_eq_false_iff_ne.mpr hsource]
    rfl

/-- Outbound rules say nothing about what comes in. -/
theorem pfVerdict_out {selectors : List String}
    (hwords : ∀ word ∈ selectors, word ≠ "" ∧ ' ' ∉ word.toList)
    (hin : "in" ∉ selectors) (conn : Connection) :
    pfVerdict (pfOutRule interface selectors) conn = none := by
  have hsplit : Text.words (pfOutRule interface selectors) =
      ["pass", "out", "quick", "on", interface] ++ selectors ++
        ["flags", "any", "keep", "state"] := by
    apply Text.words_join
    simp only [List.forall_mem_append, List.forall_mem_cons]
    exact ⟨⟨⟨by decide, by decide, by decide, by decide, hinterface.whole, by simp⟩, hwords⟩,
      by decide, by decide, by decide, by decide, by simp⟩
  have hname : "in" ≠ interface := fun heq => hinterface.plain (heq ▸ by decide)
  have hmatch : pfMatches (["pass", "out", "quick", "on", interface] ++ selectors ++
      ["flags", "any", "keep", "state"]) conn = false := by
    simp [pfMatches, hin, hname]
  unfold pfVerdict
  rw [hsplit]
  exact if_neg (ne_true_of_eq_false hmatch)

/-- The last rule of the anchor blocks whatever comes in. -/
theorem pfVerdict_all (conn : Connection) :
    pfVerdict (pfRule false interface ["all"]) conn = some false := by
  have hwords : ∀ word ∈ ["all"], word ≠ "" ∧ ' ' ∉ word.toList := by decide
  have hi := hinterface.apart
  unfold pfVerdict
  rw [words_pfRule hinterface hwords]
  simp [pfMatches, ruleValue, hi]

theorem walk_pfOut (peers : List Peer) (conn : Connection) :
    walk pfVerdict
      ((peers.flatMap fun peer => (overlayHostAddrs peer.allowedIps).map fun address =>
          pfOutRule interface ["from", "any", "to", address]) ++
        [pfOutRule interface ["all"]]) conn = none := by
  apply List.findSome?_eq_none_iff.mpr
  intro rule hrule
  rcases List.mem_append.mp hrule with hrule | hrule
  · obtain ⟨peer, -, hrule⟩ := List.mem_flatMap.mp hrule
    obtain ⟨text, htext, rfl⟩ := List.mem_map.mp hrule
    obtain ⟨address, rfl⟩ := overlayHostAddrs_address htext
    have haddress := pfWord_address address
    apply pfVerdict_out hinterface
    · simp only [List.forall_mem_cons]
      exact ⟨by decide, by decide, by decide, haddress.whole, by simp⟩
    · have hname : "in" ≠ address.toText := fun heq => haddress.plain (heq ▸ by decide)
      simp [hname]
  · cases List.mem_singleton.mp hrule
    exact pfVerdict_out hinterface (by decide) (by decide) conn

theorem walk_pfIn (peers : List Peer) (conn : Connection) :
    walk pfVerdict (peers.flatMap fun peer =>
        (overlayHostAddrs peer.allowedIps).flatMap (pfAddressRules interface peer)) conn =
      (peers.find? fun peer => lists peer conn.source).map fun peer =>
        admits peer (ownIcmp conn.source conn.protocol) conn.protocol conn.port := by
  apply walk_first
  intro peer _
  rw [lists, List.contains_eq_any_beq]
  have hcomm : ∀ text : String, (conn.source.toText == text) = (text == conn.source.toText) :=
    fun text => BEq.comm
  simp only [hcomm]
  apply walk_flatMap
  intro text htext
  obtain ⟨address, rfl⟩ := overlayHostAddrs_address htext
  exact walk_pfAddressRules hinterface peer address conn

end

/-- What the anchor makes of a new connection is what the Linux chain makes of it. -/
theorem accepts_pfPlan {peers : List Peer} {plan : PfPlan}
    (hplan : pfPlan interface peers = some plan) (conn : Connection) :
    plan.accepts conn =
      (!(peers.any fun peer => peer.ingress.isSome) ||
        (peers.find? fun peer => lists peer conn.source).any fun peer =>
          admits peer (ownIcmp conn.source conn.protocol) conn.protocol conn.port) := by
  obtain ⟨hvalid, hplan⟩ := Option.ite_none_left_eq_some.mp hplan
  have hinterface : PfWord interface := pfWord_interface (by simpa using hvalid)
  cases henforce : peers.any fun peer => peer.ingress.isSome with
  | false =>
    rw [henforce] at hplan
    cases hplan
    rfl
  | true =>
    rw [henforce] at hplan
    cases hplan
    unfold PfPlan.accepts
    rw [walk_append, walk_append, walk_pfOut hinterface,
      walk_pfIn hinterface, walk_singleton, pfVerdict_all hinterface]
    cases peers.find? fun peer => lists peer conn.source with
    | none | some peer => rfl

end BlakTail.Firewall
