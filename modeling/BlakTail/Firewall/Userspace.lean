import BlakTail.Dataplane.Policy
import BlakTail.Firewall.Grants
import BlakTail.Forwarding.Filter

/-!
# The Userspace Filter's Grants

The devices that run WireGuard in userspace read the same rows of the peer map into a policy of
the packet filter.  Its rules are a third dialect: one ICMP class for both families, and nothing
after the accepts of a grant, so what a grant does not speak of is left to the next peer that
lists the source.
-/

namespace BlakTail.Firewall

open Foundation Foundation.Netfilter Control Access PacketTable
open Dataplane

/-! ## Rows -/

/-- A mode as the peer map writes it. -/
def modeText : PqMode → String
  | .off => "off"
  | .prefer => "prefer"
  | .require => "require"

/-- A row of the peer map, written and read back with the fields the filter knows. -/
def policyPeer (peer : Peer) : PolicyPeer where
  id := Forwarding.uuidText peer.id
  allowedIps := peer.allowedIps
  ingress := peer.ingress
  pq := peer.pq.map fun pq => ⟨modeText pq.mode, pq.capable⟩

/-- The source is one of the peer's hosts, as the filter reads its routes. -/
def hosts (peer : PolicyPeer) (source : IpAddr) : Bool :=
  ((peer.allowedIps.filterMap Prefix.parse).filterMap Prefix.host).contains source

theorem wantsPq_policyPeer (peer : Peer) : (policyPeer peer).wantsPq = runsExchange peer := by
  unfold PolicyPeer.wantsPq runsExchange policyPeer
  cases peer.pq with
  | none => rfl
  | some pq =>
    obtain ⟨mode, capable, block⟩ := pq
    cases mode <;> cases capable <;> rfl

/-! ## Ports -/

theorem portRange_eq (spec : String) :
    portRange spec = (parseAclPortSpec spec).toOption.map fun bounds =>
      (UInt16.ofNat bounds.1, UInt16.ofNat bounds.2) := by
  unfold portRange parseAclPortSpec
  by_cases hstar : Text.trim spec = "*"
  · rw [if_pos hstar, if_pos hstar]
    rfl
  rw [if_neg hstar, if_neg hstar]
  cases hsplit : Text.splitOnce '-' (Text.trim spec) with
  | none =>
    simp only [Option.getD_none]
    cases hport : Text.parseU16 (Text.trim spec) with
    | none => rfl
    | some port =>
      by_cases hzero : port = 0
      · simp [hzero, Except.toOption]
      · simp [hzero, Except.toOption]
  | some parts =>
    simp only [Option.getD_some]
    cases hfirst : Text.parseU16 parts.1 with
    | none => rfl
    | some first =>
      cases hlast : Text.parseU16 parts.2 with
      | none => rfl
      | some last =>
        by_cases hbad : first = 0 ∨ last = 0 ∨ last < first
        · have hgood : ¬(first ≠ 0 ∧ last ≠ 0 ∧ first ≤ last) := by omega
          simp only [bind, Option.bind_some, if_neg hgood, if_pos hbad]
          rfl
        · have hgood : first ≠ 0 ∧ last ≠ 0 ∧ first ≤ last := by omega
          simp only [bind, Option.bind_some, if_pos hgood, if_neg hbad]
          rfl

theorem ofNat_le_iff {bound : Nat} (hbound : bound ≤ 65535) (port : UInt16) :
    (UInt16.ofNat bound ≤ port ↔ bound ≤ port.toNat) ∧
      (port ≤ UInt16.ofNat bound ↔ port.toNat ≤ bound) := by
  have hvalue : (UInt16.ofNat bound).toNat = bound :=
    UInt16.toNat_ofNat_of_lt' (Nat.lt_succ_of_le hbound)
  rw [UInt16.le_iff_toNat_le, UInt16.le_iff_toNat_le, hvalue]
  exact ⟨Iff.rfl, Iff.rfl⟩

theorem beq_toNat (proto number : UInt8) :
    (proto == number) = decide (proto.toNat = number.toNat) := by
  rw [Bool.eq_iff_iff, beq_iff_eq, decide_eq_true_eq]
  exact UInt8.toNat_inj.symm

/-! ## The dialect -/

/-- A new flow: its IP protocol and destination port. -/
abbrev Flow := UInt8 × UInt16

def flowVerdict (rule : Rule) (flow : Flow) : Option Bool :=
  decideWhen (rule.isMatch flow.1 flow.2) rule.accept

/-- The filter's one ICMP class. -/
def anyIcmp (proto : UInt8) : Bool := proto == ICMP || proto == ICMPV6

/-- The filter's rules of one source. -/
def userspaceDialect : Dialect Rule where
  port := fun accept tcp spec => (portRange spec).map fun range =>
    ⟨if tcp then .tcp else .udp, range, accept⟩
  icmp := fun accept => ⟨.icmp, (0, 0), accept⟩
  whole := ⟨.any, (0, 0), true⟩
  rest := []

/-- The filter closes TCP 22 in a user-limited grant as the agent does. -/
theorem compileRules_eq (ingress : PeerIngress) (exchange : Bool) :
    compileRules ingress (if exchange then some (UInt16.ofNat PQ_PORT) else none) =
      userspaceDialect.rules exchange (failClosedIngress ingress) := by
  have hexchange : (userspaceDialect.port true true (toString PQ_PORT)).toList =
      [⟨.tcp, (UInt16.ofNat PQ_PORT, UInt16.ofNat PQ_PORT), true⟩] := by decide
  have hclosed : failClosedIngress ingress =
      { ingress with
        denyTcp := if ingress.sshRestricted && !ingress.denyTcp.contains "22" then
            ingress.denyTcp ++ ["22"]
          else ingress.denyTcp } := by
    unfold failClosedIngress
    split_ifs
    · rfl
    · rfl
  unfold compileRules Dialect.rules
  rw [hexchange, hclosed]
  cases exchange <;>
    simp only [userspaceDialect, List.map_filterMap, if_true, Bool.false_eq_true, if_false,
      List.append_assoc, List.append_nil, List.nil_append]

/-- The compiled rules as a dialect of the filter. -/
theorem userspace_reads (flow : Flow) :
    userspaceDialect.Reads flowVerdict flow true (anyIcmp flow.1) false flow.1.toNat
      flow.2.toNat where
  port := by
    intro accept tcp spec
    show walk flowVerdict ((portRange spec).map fun range =>
      Rule.mk (if tcp then .tcp else .udp) range accept).toList flow = _
    rw [portRange_eq, specCovers]
    cases hspec : parseAclPortSpec spec with
    | error message => simp [Except.toOption, walk, decideWhen]
    | ok bounds =>
      obtain ⟨-, hordered, hhigh⟩ := parseAclPortSpec_bounds hspec
      have hfirst := (ofNat_le_iff (hordered.trans hhigh) flow.2).1
      have hlast := (ofNat_le_iff hhigh flow.2).2
      show walk flowVerdict [Rule.mk (if tcp then .tcp else .udp)
        (UInt16.ofNat bounds.1, UInt16.ofNat bounds.2) accept] flow = _
      rw [walk_singleton]
      cases tcp with
      | true =>
        show decideWhen (flow.1 == TCP && (decide (UInt16.ofNat bounds.1 ≤ flow.2) &&
          decide (flow.2 ≤ UInt16.ofNat bounds.2))) accept = _
        rw [beq_toNat, decide_eq_decide.mpr hfirst, decide_eq_decide.mpr hlast]
        rfl
      | false =>
        show decideWhen (flow.1 == UDP && (decide (UInt16.ofNat bounds.1 ≤ flow.2) &&
          decide (flow.2 ≤ UInt16.ofNat bounds.2))) accept = _
        rw [beq_toNat, decide_eq_decide.mpr hfirst, decide_eq_decide.mpr hlast]
        rfl
  icmp := fun accept => rfl
  whole := rfl
  rest := rfl

/-! ## The policy -/

/-- The rules the policy holds for a peer. -/
def peerPolicy (pqPort : Option UInt16) (peer : PolicyPeer) : List Rule :=
  compileRules (peer.ingress.getD { all := true }) (if peer.wantsPq then pqPort else none)

def Entries (policy : Policy) (source : IpAddr) : List Source :=
  (policy.sources.lookup source).getD []

theorem entries_fold (entry : Source) (found : List IpAddr) (sources : Table IpAddr (List Source))
    (source : IpAddr) :
    (((found.foldl (fun sources host =>
        sources.insert host ((sources.lookup host).getD [] ++ [entry])) sources).lookup
        source).getD []) =
      (sources.lookup source).getD [] ++ (found.filter (· == source)).map fun _ => entry := by
  induction found generalizing sources with
  | nil => simp
  | cons host found ih =>
    rw [List.foldl_cons, ih]
    by_cases hhost : source = host
    · subst hhost
      simp
    · have hother : (host == source) = false := beq_eq_false_iff_ne.mpr (Ne.symm hhost)
      simp [hhost, hother]

variable (pqPort : Option UInt16)

theorem addPeer_enforce (policy : Policy) (peer : PolicyPeer) :
    (policy.addPeer pqPort peer).enforce = policy.enforce := by
  unfold Policy.addPeer
  cases policy.enforce with
  | true | false => rfl

theorem addPeers_enforce (policy : Policy) (peers : List PolicyPeer) :
    (peers.foldl (Policy.addPeer pqPort) policy).enforce = policy.enforce := by
  induction peers generalizing policy with
  | nil => rfl
  | cons peer peers ih => rw [List.foldl_cons, ih, addPeer_enforce]

theorem addPeer_entries {policy : Policy}
    (henforce : policy.enforce) (peer : PolicyPeer) (source : IpAddr) :
    Entries (policy.addPeer pqPort peer) source = Entries policy source ++
      (((peer.allowedIps.filterMap Prefix.parse).filterMap Prefix.host).filter (· == source)).map
        fun _ => ⟨peerId peer.id, peerPolicy pqPort peer⟩ := by
  unfold Policy.addPeer
  rw [henforce]
  exact entries_fold _ _ _ _

/-- What the entries of a source make of a flow. -/
def entriesVerdict (entries : List Source) (flow : Flow) : Option Bool :=
  walk flowVerdict (entries.flatMap Source.rules) flow

theorem entriesVerdict_append (front back : List Source) (flow : Flow) :
    entriesVerdict (front ++ back) flow =
      (entriesVerdict front flow).or (entriesVerdict back flow) := by
  unfold entriesVerdict
  rw [List.flatMap_append, walk_append]

/-- A host that a peer lists twice has two entries with the same rules. -/
theorem entriesVerdict_map (entry : Source) (found : List IpAddr) (flow : Flow) :
    entriesVerdict (found.map fun _ => entry) flow =
      if found.isEmpty then none else walk flowVerdict entry.rules flow := by
  induction found with
  | nil => rfl
  | cons host found ih =>
    rw [List.map_cons, ← List.singleton_append, entriesVerdict_append, ih]
    have hone : entriesVerdict [entry] flow = walk flowVerdict entry.rules flow := by
      unfold entriesVerdict
      rw [List.flatMap_cons, List.flatMap_nil, List.append_nil]
    rw [hone]
    cases found with
    | nil => exact Option.or_none
    | cons other found => exact Option.or_self

theorem walk_flowVerdict (rules : List Rule) (flow : Flow) :
    walk flowVerdict rules flow =
      (rules.find? fun rule => rule.isMatch flow.1 flow.2).map Rule.accept := by
  induction rules with
  | nil => rfl
  | cons rule rules ih =>
    rw [walk_cons, ih, List.find?_cons, flowVerdict]
    cases rule.isMatch flow.1 flow.2 with
    | true | false => rfl

/-- The first rule that matches gives the verdict of the entries. -/
theorem firstRule_map (entries : List Source) (flow : Flow) :
    (Policy.firstRule entries flow.1 flow.2).map (fun found => found.2.accept) =
      entriesVerdict entries flow := by
  induction entries with
  | nil => rfl
  | cons entry entries ih =>
    unfold Policy.firstRule at ih ⊢
    unfold entriesVerdict at ih ⊢
    rw [List.flatMap_cons, walk_append, ← ih, walk_flowVerdict, List.findSome?_cons]
    cases entry.rules.find? fun rule => rule.isMatch flow.1 flow.2 with
    | none | some rule => rfl

/-- What a peer's entries in the policy make of a flow from a source. -/
def hostVerdict (pqPort : Option UInt16) (source : IpAddr) (flow : Flow) (peer : PolicyPeer) :
    Option Bool :=
  if hosts peer source then walk flowVerdict (peerPolicy pqPort peer) flow else none

theorem addPeers_entries {policy : Policy}
    (henforce : policy.enforce) (peers : List PolicyPeer)
    (source : IpAddr) (flow : Flow) :
    entriesVerdict (Entries (peers.foldl (Policy.addPeer pqPort) policy) source) flow =
      (entriesVerdict (Entries policy source) flow).or
        (peers.findSome? (hostVerdict pqPort source flow)) := by
  induction peers generalizing policy with
  | nil => exact Option.or_none.symm
  | cons peer peers ih =>
    have hnext : (policy.addPeer pqPort peer).enforce :=
      (addPeer_enforce pqPort policy peer).trans henforce
    rw [List.foldl_cons, ih hnext, addPeer_entries pqPort henforce, entriesVerdict_append,
      entriesVerdict_map, Option.or_assoc, List.findSome?_cons]
    congr 1
    have hempty : (((peer.allowedIps.filterMap Prefix.parse).filterMap Prefix.host).filter
        (· == source)).isEmpty = !hosts peer source := by
      rw [hosts, Bool.eq_iff_iff, List.isEmpty_iff, List.filter_eq_nil_iff, Bool.not_eq_true',
        ← Bool.not_eq_true, List.contains_iff_mem]
      constructor
      · exact fun h hmem => h source hmem (beq_self_eq_true source)
      · exact fun h host hhost heq => h (beq_iff_eq.mp heq ▸ hhost)
    rw [hempty, hostVerdict]
    cases hosts peer source with
    | false => rfl
    | true =>
      cases walk flowVerdict (peerPolicy pqPort peer) flow with
      | none | some decision => rfl

/-- What the policy makes of a new flow: the first peer that lists the source and speaks of it
decides. -/
theorem allows_compile (peers : List PolicyPeer) (pqPort : Option UInt16) (source : IpAddr)
    (flow : Flow) :
    (Policy.compile peers pqPort).allows source flow.1 flow.2 =
      (!(peers.any fun peer => peer.ingress.isSome) ||
        (peers.findSome? (hostVerdict pqPort source flow)).getD false) := by
  have henforce : (Policy.compile peers pqPort).enforce =
      peers.any fun peer => peer.ingress.isSome := addPeers_enforce pqPort _ peers
  have hallows : (Policy.compile peers pqPort).allows source flow.1 flow.2 =
      (!(Policy.compile peers pqPort).enforce ||
        (entriesVerdict (Entries (Policy.compile peers pqPort) source) flow).getD false) := by
    rw [← firstRule_map]
    unfold Policy.allows Policy.decide Policy.decideWithHint Entries
    cases Policy.firstRule
      (((Policy.compile peers pqPort).sources.lookup source).getD []) flow.1 flow.2 with
    | none => exact (Bool.or_false _).symm
    | some found => rfl
  rw [hallows, henforce]
  cases hany : peers.any fun peer => peer.ingress.isSome with
  | false => rfl
  | true =>
    unfold Policy.compile
    rw [hany, addPeers_entries pqPort rfl]
    rfl

/-! ## Rows of the peer map -/

/-- The grant of a row with TCP 22 closed where it would have to be limited. -/
def closedGrant (peer : Peer) : PeerIngress :=
  failClosedIngress (peer.ingress.getD { all := true })

/-- What the filter makes of a flow from a host of the row; `exchanges` says that it knows the
exchange's port. -/
theorem hostVerdict_policyPeer (exchanges : Bool) (source : IpAddr) (flow : Flow) (peer : Peer) :
    hostVerdict (if exchanges then some (UInt16.ofNat PQ_PORT) else none) source flow
        (policyPeer peer) =
      if hosts (policyPeer peer) source then
        (decideWhen
          (exchanges && runsExchange peer && toExchange flow.1.toNat flow.2.toNat) true).or
          (grantVerdict (closedGrant peer) (anyIcmp flow.1) flow.1.toNat flow.2.toNat)
      else none := by
  have hport : (if (policyPeer peer).wantsPq then
      (if exchanges then some (UInt16.ofNat PQ_PORT) else none) else none) =
      if exchanges && runsExchange peer then some (UInt16.ofNat PQ_PORT) else none := by
    rw [wantsPq_policyPeer]
    cases exchanges <;> cases runsExchange peer <;> rfl
  unfold hostVerdict peerPolicy
  rw [hport, compileRules_eq, Dialect.walk_rules (userspace_reads flow)]
  have hrest : decideWhen false false = none := rfl
  rw [hrest, Option.or_none]
  rfl

/-- What the filter makes of a new flow under the grants of the peer map. -/
theorem allows_rows (peers : List Peer) (exchanges : Bool) (source : IpAddr) (flow : Flow) :
    (Policy.compile (peers.map policyPeer)
        (if exchanges then some (UInt16.ofNat PQ_PORT) else none)).allows source flow.1 flow.2 =
      (!(peers.any fun peer => peer.ingress.isSome) ||
        (peers.findSome? fun peer => if hosts (policyPeer peer) source then
          (decideWhen
            (exchanges && runsExchange peer && toExchange flow.1.toNat flow.2.toNat) true).or
            (grantVerdict (closedGrant peer) (anyIcmp flow.1) flow.1.toNat flow.2.toNat)
          else none).getD false) := by
  rw [allows_compile, List.any_map, List.findSome?_map]
  have hverdict : hostVerdict (if exchanges then some (UInt16.ofNat PQ_PORT) else none)
      source flow ∘
      policyPeer = _ := funext (hostVerdict_policyPeer exchanges source flow)
  rw [hverdict]
  rfl

/-- Neither the address nor the length of a route has blanks around it.  A blank beside the slash is
excluded: there only the userspace filter reads the host. -/
def tight (route : String) : Bool :=
  (Text.splitOnce '/' route).all fun (address, length) =>
    Text.trim address == address && Text.trim length == length

theorem overlayHostAddr_tight {route : String} (h : tight route) :
    overlayHostAddr route = ((Prefix.parse route).bind Prefix.host).map IpAddr.toText := by
  unfold overlayHostAddr Prefix.parse
  unfold tight at h
  cases hsplit : Text.splitOnce '/' route with
  | none => rfl
  | some parts =>
    obtain ⟨address, length⟩ := parts
    rw [hsplit] at h
    simp only [Option.all_some, Bool.and_eq_true, beq_iff_eq] at h
    simp only [bind, Option.bind_some, h.1, h.2]
    cases IpAddr.parse address with
    | none => rfl
    | some parsed =>
      cases Text.parseU8 length with
      | none => rfl
      | some bits =>
        cases parsed with
        | v4 network =>
          by_cases hfull : bits = 32
          · simp [hfull, Prefix.host, IpAddr.isIpv4]
          · by_cases hlow : bits ≤ 32
            · simp [hfull, hlow, Prefix.host, IpAddr.isIpv4]
            · simp [hfull, hlow, IpAddr.isIpv4]
        | v6 network =>
          by_cases hfull : bits = 128
          · simp [hfull, Prefix.host, IpAddr.isIpv4]
          · by_cases hlow : bits ≤ 128
            · simp [hfull, hlow, Prefix.host, IpAddr.isIpv4]
            · simp [hfull, hlow, IpAddr.isIpv4]

/-- The agents and the filter read routes without such blanks alike. -/
theorem hosts_policyPeer {peer : Peer} (h : ∀ route ∈ peer.allowedIps, tight route)
    (source : IpAddr) : hosts (policyPeer peer) source = lists peer source := by
  have hread : overlayHostAddrs peer.allowedIps =
      ((peer.allowedIps.filterMap Prefix.parse).filterMap Prefix.host).map IpAddr.toText := by
    rw [List.filterMap_filterMap, List.map_filterMap]
    exact List.filterMap_congr fun route hroute => overlayHostAddr_tight (h route hroute)
  have hinjective : Function.Injective IpAddr.toText := by
    intro a b heq
    exact beq_iff_eq.mp ((toText_beq a b).symm.trans (beq_iff_eq.mpr heq))
  unfold hosts lists
  rw [hread, Bool.eq_iff_iff, List.contains_iff_mem, List.contains_iff_mem,
    List.mem_map_of_injective hinjective]
  rfl

end BlakTail.Firewall
