import BlakTail.Access.Sshd
import BlakTail.Foundation.Netfilter

/-!
# The Inbound Filter Plan

The Linux agent turns the grants of its peers into two lists of `iptables` rules, one for each
address family, that are to stand in one chain.  Rules are kept as the argument lists they are
passed as; what a rule makes of a new connection is read off its arguments.
-/

namespace BlakTail.Firewall

open Foundation Foundation.Netfilter Control Access

def ACL_CHAIN : String := "BLAKTAIL-ACL"

/-- The port of the in-tunnel post-quantum exchange. -/
def PQ_PORT : Nat := 51822

structure FilterPlan where
  enforce : Bool := false
  ipv4 : List (List String) := []
  ipv6 : List (List String) := []

/-! ## Rules -/

/-- A port selection in the form `--dport` takes. -/
def iptablesPort (spec : String) : Option String :=
  let spec := Text.trim spec
  if spec = "*" then some "1:65535"
  else
    match Text.splitOnce '-' spec with
    | some (first, last) => do
      let first ← Text.parseU16 first
      let last ← Text.parseU16 last
      if first = 0 ∨ last = 0 ∨ last < first then none
      else some (if first = last then toString first else toString first ++ ":" ++ toString last)
    | none => do
      let port ← Text.parseU16 spec
      if port ≠ 0 then some (toString port) else none

def appendRule (body : List String) : List String := "-A" :: ACL_CHAIN :: body

def established : List String :=
  appendRule ["-m", "conntrack", "--ctstate", "RELATED,ESTABLISHED", "-j", "ACCEPT"]

def acceptSource (source : String) : List String := appendRule ["-s", source, "-j", "ACCEPT"]

def acceptPort (source protocol port : String) : List String :=
  appendRule ["-s", source, "-p", protocol, "--dport", port, "-j", "ACCEPT"]

def acceptIcmp (source : String) : List String :=
  appendRule ["-s", source, "-p", if source.toList.contains ':' then "icmpv6" else "icmp",
    "-j", "ACCEPT"]

def rejectPort (source protocol port : String) (tcp : Bool) : List String :=
  appendRule ["-s", source, "-p", protocol, "--dport", port, "-j", "REJECT", "--reject-with",
    if tcp then "tcp-reset"
    else if source.toList.contains ':' then "icmp6-port-unreachable"
    else "icmp-port-unreachable"]

def rejectIcmp (source : String) : List String :=
  let (protocol, reject) :=
    if source.toList.contains ':' then ("icmpv6", "icmp6-port-unreachable")
    else ("icmp", "icmp-port-unreachable")
  appendRule ["-s", source, "-p", protocol, "-j", "REJECT", "--reject-with", reject]

def finalReject (ipv6 : Bool) : List (List String) :=
  let icmp := if ipv6 then "icmp6-port-unreachable" else "icmp-port-unreachable"
  [appendRule ["-p", "tcp", "-j", "REJECT", "--reject-with", "tcp-reset"],
    appendRule ["-j", "REJECT", "--reject-with", icmp]]

/-- The chain's final rejects, scoped to one source. -/
def sourceReject (source : String) : List (List String) :=
  (finalReject (source.toList.contains ':')).map fun rule =>
    rule.take 2 ++ ["-s", source] ++ rule.drop 2

/-- The rules of one source, without the shared accept of the exchange. -/
def peerRules (source : String) (ingress : PeerIngress) : List (List String) :=
  let denied := (ingress.denyTcp.filterMap iptablesPort).map (rejectPort source "tcp" · true) ++
    (ingress.denyUdp.filterMap iptablesPort).map (rejectPort source "udp" · false) ++
    if ingress.denyIcmp then [rejectIcmp source] else []
  if ingress.all then denied ++ [acceptSource source]
  else
    denied ++ (ingress.tcp.filterMap iptablesPort).map (acceptPort source "tcp") ++
      (ingress.udp.filterMap iptablesPort).map (acceptPort source "udp") ++
      (if ingress.icmp then [acceptIcmp source] else []) ++ sourceReject source

/-! ## The plan -/

def addressRules (peer : Peer) (address : String) : List (List String) :=
  let ingress := peer.ingress.getD { all := true }
  let pqExchange := peer.pq.any fun pq => pq.mode ≠ .off && pq.capable
  -- the in-tunnel exchange must work even when policy grants this peer nothing else
  (if pqExchange then [acceptPort address "tcp" (toString PQ_PORT)] else []) ++
    peerRules address ingress

/-- The rules of all host addresses of one family, in the order of the peers. -/
def familyRules (peers : List Peer) (ipv6 : Bool) : List (List String) :=
  peers.flatMap fun peer =>
    ((overlayHostAddrs peer.allowedIps).filter fun address =>
      address.toList.contains ':' == ipv6).flatMap (addressRules peer)

/-- The rules of a peer list. -/
def planOverlayFilter (peers : List Peer) : FilterPlan :=
  if peers.any fun peer => peer.ingress.isSome then
    { enforce := true
      ipv4 := established :: familyRules peers false ++ finalReject false
      ipv6 := established :: familyRules peers true ++ finalReject true }
  else {}

/-! ## Log copies -/

def NFLOG_GROUP : Nat := 7841

/-- The label of a log rule: the chain, and whether the rule it copies names what it rejects. -/
def logLabel (forward : Bool) (selectors : List String) : String :=
  let explicit :=
    if forward then selectors.contains "-d"
    else selectors.contains "--dport" ||
      (selectors.zip selectors.tail).any fun pair =>
        pair.1 == "-p" && "icmp".toList.isPrefixOf pair.2.toList
  match forward, explicit with
  | false, true => "bt:acl:deny-rule"
  | false, false => "bt:acl:default"
  | true, true => "bt:fwd:deny-rule"
  | true, false => "bt:fwd:default"

/-- A rate-limited log rule for what the selectors select. -/
def logRule (selectors : List String) (label : String) : List String :=
  selectors ++ ["-m", "limit", "--limit", "50/second", "--limit-burst", "100", "-j", "NFLOG",
    "--nflog-group", toString NFLOG_GROUP, "--nflog-prefix", label]

/-- Log rules ahead of every rejecting rule: their positions, which count the rules inserted
before, and their bodies.  `index` is the place of the first body in the chain. -/
def dropLogInserts (forward : Bool) :
    Nat → Nat → List (List String) → List (Nat × List String)
  | _, _, [] => []
  | index, inserted, body :: bodies =>
    if (body.dropWhile (· ≠ "-j")).tail.head? = some "REJECT" then
      let selectors := body.takeWhile (· ≠ "-j")
      (index + 1 + inserted, logRule selectors (logLabel forward selectors)) ::
        dropLogInserts forward (index + 1) (inserted + 1) bodies
    else dropLogInserts forward (index + 1) inserted bodies

/-! ## Verdicts -/

/-- A new connection that arrives on the overlay interface: its source, IP protocol number and
destination port. -/
structure Connection where
  source : IpAddr
  protocol : Nat
  port : Nat

def ruleValue (body : List String) (flag : String) : Option String :=
  (body.dropWhile (· ≠ flag)).tail.head?

/-- The protocol names rules use. -/
def protocolNumber (name : String) : Option Nat :=
  if name = "tcp" then some 6
  else if name = "udp" then some 17
  else if name = "icmp" then some 1
  else if name = "icmpv6" then some 58
  else none

/-- A port, or two with a colon between. -/
def portMatches (port : Nat) (range : String) : Bool :=
  let (first, last) := (Text.splitOnce ':' range).getD (range, range)
  (Text.parseU16 first).any (· ≤ port) && (Text.parseU16 last).any (port ≤ ·)

/-- Whether a rule selects a new connection; a new one is neither related nor established. -/
def ruleMatches (body : List String) (conn : Connection) : Bool :=
  !body.contains "conntrack" &&
    (ruleValue body "-s").all (fun source => IpAddr.parse source == some conn.source) &&
    (ruleValue body "-p").all (fun name => protocolNumber name == some conn.protocol) &&
    (ruleValue body "--dport").all (portMatches conn.port)

/-- What a rule decides; a log rule lets the connection go on. -/
def ruleVerdict (body : List String) (conn : Connection) : Option Bool :=
  if ruleMatches body conn then
    match ruleValue body "-j" with
    | some "ACCEPT" => some true
    | some "REJECT" => some false
    | _ => none
  else none

/-- The bodies of a plan's rules for one family, as the chain holds them. -/
def FilterPlan.bodies (plan : FilterPlan) (ipv6 : Bool) : List (List String) :=
  (if ipv6 then plan.ipv6 else plan.ipv4).map fun rule => rule.drop 2

/-- What a plan accepts: everything when it does not enforce. -/
def FilterPlan.accepts (plan : FilterPlan) (conn : Connection) : Bool :=
  !plan.enforce || (PacketTable.walk ruleVerdict (plan.bodies conn.source.isIpv6) conn).getD true

/-! ## What logs and final rejects decide -/

theorem ruleValue_append {front : List String} {flag : String} (hfront : flag ∉ front)
    (rest : List String) : ruleValue (front ++ rest) flag = ruleValue rest flag := by
  induction front with
  | nil => rfl
  | cons word front ih =>
    rw [List.mem_cons, not_or] at hfront
    have hword : word ≠ flag := fun heq => hfront.1 heq.symm
    have hskip : ruleValue (word :: (front ++ rest)) flag = ruleValue (front ++ rest) flag := by
      simp [ruleValue, hword]
    rw [List.cons_append, hskip, ih hfront.2]

theorem ruleVerdict_log {body : List String} (hlog : ruleValue body "-j" = some "NFLOG")
    (conn : Connection) : ruleVerdict body conn = none := by
  unfold ruleVerdict
  rw [hlog]
  split_ifs
  · rfl
  · rfl

/-- What is inserted are log rules. -/
theorem dropLogInserts_log {index inserted : Nat} {bodies : List (List String)} {forward : Bool} :
    ∀ insert ∈ dropLogInserts forward index inserted bodies,
      ruleValue insert.2 "-j" = some "NFLOG" := by
  induction bodies generalizing index inserted with
  | nil => exact nofun
  | cons body bodies ih =>
    intro insert hmem
    unfold dropLogInserts at hmem
    split_ifs at hmem
    · rcases List.mem_cons.mp hmem with rfl | hmem
      · -- the selectors end where the jump of the copied rule begins
        have hselectors : "-j" ∉ body.takeWhile (· ≠ "-j") := by
          intro hin
          simpa using List.mem_takeWhile_imp hin
        rw [logRule, ruleValue_append hselectors]
        rfl
      · exact ih insert hmem
    · exact ih insert hmem

/-- Nothing gets past the final rejects. -/
theorem walk_finalReject (ipv6 : Bool) (conn : Connection) :
    PacketTable.walk ruleVerdict ((finalReject ipv6).map fun rule => rule.drop 2) conn =
      some false := by
  have hlast : ruleVerdict ["-j", "REJECT", "--reject-with",
      if ipv6 then "icmp6-port-unreachable" else "icmp-port-unreachable"] conn = some false := by
    cases ipv6 with
    | false | true => rfl
  have hfirst : ruleVerdict ["-p", "tcp", "-j", "REJECT", "--reject-with", "tcp-reset"] conn =
        some false ∨
      ruleVerdict ["-p", "tcp", "-j", "REJECT", "--reject-with", "tcp-reset"] conn = none := by
    unfold ruleVerdict
    split_ifs
    · exact .inl rfl
    · exact .inr rfl
  simp only [PacketTable.walk, finalReject, appendRule, List.map_cons, List.map_nil,
    List.drop_succ_cons, List.drop_zero, List.findSome?_cons, hlast]
  rcases hfirst with hfirst | hfirst
  · rw [hfirst]
  · rw [hfirst]

/-- An enforcing plan decides every connection. -/
theorem walk_plan {peers : List Peer} (henforce : (planOverlayFilter peers).enforce)
    (ipv6 : Bool) (conn : Connection) :
    ∃ decision,
      PacketTable.walk ruleVerdict ((planOverlayFilter peers).bodies ipv6) conn =
        some decision := by
  have hbodies : (planOverlayFilter peers).bodies ipv6 =
      (established :: familyRules peers ipv6).map (fun rule => rule.drop 2) ++
        (finalReject ipv6).map fun rule => rule.drop 2 := by
    unfold planOverlayFilter at henforce ⊢
    split_ifs at henforce ⊢
    rw [← List.map_append]
    cases ipv6 with
    | false | true => rfl
  have hend := walk_finalReject ipv6 conn
  unfold PacketTable.walk at hend ⊢
  rw [hbodies, List.findSome?_append, hend]
  cases List.findSome? (fun rule => ruleVerdict rule conn) _ with
  | some decision => exact ⟨decision, rfl⟩
  | none => exact ⟨false, rfl⟩

end BlakTail.Firewall
