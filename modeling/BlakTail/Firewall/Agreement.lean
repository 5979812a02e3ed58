import BlakTail.Firewall.Pf
import BlakTail.Firewall.Userspace

/-!
# Agreement of the Backends

The Linux chain, the macOS anchor and the userspace filter are compiled from one peer map.  Where
no two peers share a host, all three give one verdict, `filterVerdict`.

Where peers share a host they part: in the chain the first peer that lists a source decides, and
in the userspace filter the first that lists it and speaks of the flow does.  They also part over
ICMP of the other family and over blanks inside a route.
-/

namespace BlakTail.Firewall

open Foundation Foundation.Netfilter Control Access
open Dataplane

/-! ## One verdict -/

/-- The grant lets the flow in: no deny covers it, and it is for everything or an allow does. -/
def grants (peer : Peer) (icmp : Bool) (protocol port : Nat) : Bool :=
  !denies (closedGrant peer) icmp protocol port &&
    ((closedGrant peer).all || covers (closedGrant peer) icmp protocol port)

/-- The flow opens the exchange of the pair, or the grant lets it in. -/
def opens (peer : Peer) (icmp : Bool) (protocol port : Nat) : Bool :=
  (runsExchange peer && toExchange protocol port) || grants peer icmp protocol port

/-- Nothing is enforced, or a peer that lists the source lets the flow in. -/
def filterVerdict (peers : List Peer) (conn : Connection) : Bool :=
  !(peers.any fun peer => peer.ingress.isSome) ||
    peers.any fun peer => lists peer conn.source &&
      opens peer (ownIcmp conn.source conn.protocol) conn.protocol conn.port

theorem grantVerdict_eq_true {ingress : PeerIngress} {icmp : Bool} {protocol port : Nat} :
    grantVerdict ingress icmp protocol port = some true ↔
      (!denies ingress icmp protocol port &&
        (ingress.all || covers ingress icmp protocol port)) := by
  unfold grantVerdict
  cases denies ingress icmp protocol port <;>
    cases ingress.all || covers ingress icmp protocol port <;> decide

theorem grantVerdict_getD (peer : Peer) (icmp : Bool) (protocol port : Nat) :
    (grantVerdict (closedGrant peer) icmp protocol port).getD false =
      grants peer icmp protocol port := by
  unfold grantVerdict grants
  cases denies (closedGrant peer) icmp protocol port <;>
    cases (closedGrant peer).all || covers (closedGrant peer) icmp protocol port <;> rfl

/-! ## The kernel filters -/

variable (peers : List Peer)

/-- What the chain and the anchor make of a connection, with TCP 22 closed. -/
theorem first_lister_closed (conn : Connection) :
    (!((failClosedSsh peers false).any fun peer => peer.ingress.isSome) ||
      ((failClosedSsh peers false).find? fun peer => lists peer conn.source).any fun peer =>
        admits peer (ownIcmp conn.source conn.protocol) conn.protocol conn.port) =
    (!(peers.any fun peer => peer.ingress.isSome) ||
      (peers.find? fun peer => lists peer conn.source).any fun peer =>
        opens peer (ownIcmp conn.source conn.protocol) conn.protocol conn.port) := by
  have hclosed : ∀ peer : Peer,
      (peer.ingress.map failClosedIngress).getD { all := true } = closedGrant peer := by
    intro peer
    unfold closedGrant
    cases peer.ingress with
    | none | some ingress => rfl
  have hadmits : ∀ peer : Peer,
      admits { peer with ingress := peer.ingress.map failClosedIngress }
          (ownIcmp conn.source conn.protocol) conn.protocol conn.port =
        opens peer (ownIcmp conn.source conn.protocol) conn.protocol conn.port := by
    intro peer
    unfold admits opens
    rw [← grantVerdict_getD, ← hclosed]
    rfl
  unfold failClosedSsh
  rw [if_neg Bool.false_ne_true, List.any_map, List.find?_map, Option.any_map]
  congr 1
  · congr 1
    congr 1
    funext peer
    exact Option.isSome_map
  · congr 1
    funext peer
    exact hadmits peer

/-! ## Agreement -/

/-- The ICMP class of the filter is that of the source's family for every protocol but the
other family's ICMP. -/
theorem anyIcmp_own {source : IpAddr} {proto : UInt8}
    (hproto : proto = TCP ∨ proto = UDP ∨ ownIcmp source proto.toNat ∨
      (proto ≠ ICMP ∧ proto ≠ ICMPV6)) : anyIcmp proto = ownIcmp source proto.toNat := by
  have hicmp : anyIcmp proto = (decide (proto.toNat = 1) || decide (proto.toNat = 58)) := by
    unfold anyIcmp
    rw [beq_toNat, beq_toNat]
    rfl
  have hcases : proto.toNat = 6 ∨ proto.toNat = 17 ∨ ownIcmp source proto.toNat ∨
      (proto.toNat ≠ 1 ∧ proto.toNat ≠ 58) := by
    rcases hproto with rfl | rfl | hown | ⟨hfour, hsix⟩
    · exact .inl rfl
    · exact .inr (.inl rfl)
    · exact .inr (.inr (.inl hown))
    · refine .inr (.inr (.inr ⟨fun heq => hfour ?_, fun heq => hsix ?_⟩))
      · exact UInt8.toNat_inj.mp heq
      · exact UInt8.toNat_inj.mp heq
  rw [hicmp, Bool.eq_iff_iff]
  unfold ownIcmp at hcases ⊢
  cases hfamily : source.isIpv6 with
  | false =>
    simp only [hfamily, Bool.false_eq_true, if_false, decide_eq_true_eq,
      Bool.or_eq_true] at hcases ⊢
    omega
  | true =>
    simp only [hfamily, if_true, decide_eq_true_eq, Bool.or_eq_true] at hcases ⊢
    omega

/-- Over peers that share no host, the Linux chain, the macOS anchor and the userspace filter
give every new connection one verdict, unless it is ICMP of the other family. -/
theorem backends_agree {peers : List Peer}
    (htight : ∀ peer ∈ peers, ∀ route ∈ peer.allowedIps, tight route)
    (halone : ∀ p ∈ peers, ∀ q ∈ peers, ∀ host, lists p host → lists q host → p = q)
    {interface : String} {plan : PfPlan}
    (hplan : pfPlan interface (failClosedSsh peers false) = some plan)
    (source : IpAddr) (proto : UInt8) (port : UInt16)
    (hproto : proto = TCP ∨ proto = UDP ∨ ownIcmp source proto.toNat ∨
      (proto ≠ ICMP ∧ proto ≠ ICMPV6)) :
    (planOverlayFilter (failClosedSsh peers false)).accepts ⟨source, proto.toNat, port.toNat⟩ =
        filterVerdict peers ⟨source, proto.toNat, port.toNat⟩ ∧
      plan.accepts ⟨source, proto.toNat, port.toNat⟩ =
        filterVerdict peers ⟨source, proto.toNat, port.toNat⟩ ∧
      ((Policy.compile (peers.map policyPeer) (some (UInt16.ofNat PQ_PORT))).decide source proto
        port).1 = filterVerdict peers ⟨source, proto.toNat, port.toNat⟩ := by
  have hone : ∀ p ∈ peers, ∀ q ∈ peers, lists p source → lists q source → p = q :=
    fun p hp q hq => halone p hp q hq source
  have hkernel : (!((failClosedSsh peers false).any fun peer => peer.ingress.isSome) ||
      ((failClosedSsh peers false).find? fun peer => lists peer source).any fun peer =>
        admits peer (ownIcmp source proto.toNat) proto.toNat port.toNat) =
      filterVerdict peers ⟨source, proto.toNat, port.toNat⟩ := by
    refine (first_lister_closed peers ⟨source, proto.toNat, port.toNat⟩).trans ?_
    rw [PacketTable.find?_any_alone hone]
    rfl
  refine ⟨?_, ?_, ?_⟩
  · rw [accepts_planOverlayFilter]
    exact hkernel
  · rw [accepts_pfPlan hplan]
    exact hkernel
  · have hhosts : ∀ peer ∈ peers, hosts (policyPeer peer) source = lists peer source :=
      fun peer hpeer => hosts_policyPeer (htight peer hpeer) source
    have honeHost : ∀ p ∈ peers, ∀ q ∈ peers, hosts (policyPeer p) source →
        hosts (policyPeer q) source → p = q := by
      intro p hp q hq
      rw [hhosts p hp, hhosts q hq]
      exact hone p hp q hq
    refine (allows_rows peers true source (proto, port)).trans ?_
    rw [PacketTable.findSome?_alone honeHost, anyIcmp_own hproto]
    congr 1
    -- both ask the same of every peer of the list
    rw [Bool.eq_iff_iff, List.any_eq_true, List.any_eq_true]
    refine exists_congr fun peer => and_congr_right fun hpeer => ?_
    rw [hhosts peer hpeer, Bool.true_and, opens, ← grantVerdict_getD]
    cases runsExchange peer && toExchange proto.toNat port.toNat with
    | true | false => exact Iff.rfl

/-- A database server and the laptop of its administrator. -/
def officePeers : List Peer :=
  [{ id := 1, wgPublicKey := "server", allowedIps := ["100.64.0.2/32"],
     ingress := some { tcp := ["443"], denyTcp := ["22"] } },
   { id := 2, wgPublicKey := "laptop", allowedIps := ["100.64.0.3/32"],
     ingress := some { all := true } }]

theorem backends_agree_office :
    ∃ plan : PfPlan, pfPlan "utun4" (failClosedSsh officePeers false) = some plan ∧
      (planOverlayFilter (failClosedSsh officePeers false)).accepts ⟨.v4 0x64400002, 6, 443⟩ =
        filterVerdict officePeers ⟨.v4 0x64400002, 6, 443⟩ ∧
      plan.accepts ⟨.v4 0x64400002, 6, 443⟩ =
        filterVerdict officePeers ⟨.v4 0x64400002, 6, 443⟩ ∧
      ((Policy.compile (officePeers.map policyPeer) (some (UInt16.ofNat PQ_PORT))).decide
        (.v4 0x64400002) TCP 443).1 = filterVerdict officePeers ⟨.v4 0x64400002, 6, 443⟩ ∧
      filterVerdict officePeers ⟨.v4 0x64400002, 6, 443⟩ = true ∧
      filterVerdict officePeers ⟨.v4 0x64400002, 6, 80⟩ = false := by
  have htight : ∀ peer ∈ officePeers, ∀ route ∈ peer.allowedIps, tight route := by decide
  have halone : ∀ p ∈ officePeers, ∀ q ∈ officePeers, ∀ host, lists p host → lists q host →
      p = q := by
    have htexts : ∀ p ∈ officePeers, ∀ q ∈ officePeers,
        (∃ text ∈ overlayHostAddrs p.allowedIps, text ∈ overlayHostAddrs q.allowedIps) → p = q := by
      decide
    intro p hp q hq host hfirst hsecond
    exact htexts p hp q hq
      ⟨host.toText, List.contains_iff_mem.mp hfirst, List.contains_iff_mem.mp hsecond⟩
  obtain ⟨plan, hplan⟩ : ∃ plan, pfPlan "utun4" (failClosedSsh officePeers false) = some plan :=
    ⟨_, rfl⟩
  obtain ⟨hchain, hanchor, hfilter⟩ :=
    backends_agree htight halone hplan (.v4 0x64400002) TCP 443 (.inl rfl)
  exact ⟨plan, hplan, hchain, hanchor, hfilter, by decide, by decide⟩

/-! ## The filter against the chain -/

/-- The userspace filter's reason to let a flow in: the first peer that lists the source, blanks
in its routes dropped, and speaks of the flow grants it. -/
def Granted (peers : List Peer) (source : IpAddr) (proto : UInt8) (port : UInt16) : Prop :=
  ∃ before peer after, peers = before ++ peer :: after ∧ hosts (policyPeer peer) source ∧
    grants peer (anyIcmp proto) proto.toNat port.toNat ∧
    ∀ earlier ∈ before, hosts (policyPeer earlier) source →
      denies (closedGrant earlier) (anyIcmp proto) proto.toNat port.toNat = false ∧
      (closedGrant earlier).all = false ∧
      covers (closedGrant earlier) (anyIcmp proto) proto.toNat port.toNat = false

/-- The chain's reason to let a flow in: the first peer that lists the source opens it, ICMP
being that of the source's family. -/
def Opened (peers : List Peer) (source : IpAddr) (proto : UInt8) (port : UInt16) : Prop :=
  ∃ before peer after, peers = before ++ peer :: after ∧ lists peer source ∧
    opens peer (ownIcmp source proto.toNat) proto.toNat port.toNat ∧
    ∀ earlier ∈ before, lists earlier source = false

theorem grantVerdict_eq_none {ingress : PeerIngress} {icmp : Bool} {protocol port : Nat} :
    grantVerdict ingress icmp protocol port = none ↔
      denies ingress icmp protocol port = false ∧ ingress.all = false ∧
        covers ingress icmp protocol port = false := by
  unfold grantVerdict
  cases denies ingress icmp protocol port <;> cases ingress.all <;>
    cases covers ingress icmp protocol port <;> decide

theorem enforced_or (verdict : Bool) :
    (!(peers.any fun peer => peer.ingress.isSome) || verdict) ↔
      ((∃ peer ∈ peers, peer.ingress.isSome) → verdict) := by
  rw [Bool.or_eq_true, Bool.not_eq_true', ← Bool.not_eq_true, List.any_eq_true]
  exact imp_iff_not_or.symm

theorem getD_eq_true (verdict : Option Bool) : verdict.getD false ↔ verdict = some true := by
  cases verdict with
  | none => exact ⟨fun h => absurd h Bool.false_ne_true, nofun⟩
  | some decision => exact Option.some_inj.symm

theorem allows_iff_granted (source : IpAddr) (proto : UInt8) (port : UInt16) :
    (Policy.compile (peers.map policyPeer) none).allows source proto port ↔
      ((∃ peer ∈ peers, peer.ingress.isSome) → Granted peers source proto port) := by
  have hrows : (Policy.compile (peers.map policyPeer) none).allows source proto port = _ :=
    allows_rows peers false source (proto, port)
  rw [hrows, enforced_or]
  refine imp_congr_right fun _ => ?_
  rw [getD_eq_true, List.findSome?_eq_some_iff]
  refine exists_congr fun before => exists_congr fun peer => exists_congr fun after =>
    and_congr_right fun _ => ?_
  rw [← and_assoc]
  refine and_congr ?_ (forall₂_congr fun earlier _ => ?_)
  · rw [Option.ite_none_right_eq_some]
    exact and_congr_right fun _ => grantVerdict_eq_true
  · rw [ite_eq_right_iff]
    exact imp_congr_right fun _ => grantVerdict_eq_none

theorem accepts_iff_opened (source : IpAddr) (proto : UInt8) (port : UInt16) :
    (planOverlayFilter (failClosedSsh peers false)).accepts
        ⟨source, proto.toNat, port.toNat⟩ = true ↔
      ((∃ peer ∈ peers, peer.ingress.isSome) → Opened peers source proto port) := by
  have hclosed := first_lister_closed peers ⟨source, proto.toNat, port.toNat⟩
  rw [accepts_planOverlayFilter, hclosed, enforced_or]
  refine imp_congr_right fun _ => ?_
  rw [Option.any_eq_true]
  constructor
  · rintro ⟨peer, hfind, hopens⟩
    obtain ⟨hlists, before, after, rfl, hbefore⟩ := List.find?_eq_some_iff_append.mp hfind
    refine ⟨before, peer, after, rfl, hlists, hopens, fun earlier hearlier => ?_⟩
    simpa using hbefore earlier hearlier
  · rintro ⟨before, peer, after, rfl, hlists, hopens, hbefore⟩
    refine ⟨peer, ?_, hopens⟩
    refine List.find?_eq_some_iff_append.mpr ⟨hlists, before, after, rfl,
      fun earlier hearlier => ?_⟩
    simpa using hbefore earlier hearlier

/-- The filter lets in nothing the chain would reject exactly where, once a peer carries a grant,
what a grant lets in past silent peers is opened by the first peer that lists the source. -/
theorem userspace_within_chain_iff (peers : List Peer) (source : IpAddr) (proto : UInt8)
    (port : UInt16) :
    ((Policy.compile (peers.map policyPeer) none).allows source proto port →
        (planOverlayFilter (failClosedSsh peers false)).accepts
          ⟨source, proto.toNat, port.toNat⟩ = true) ↔
      ((∃ peer ∈ peers, peer.ingress.isSome) → Granted peers source proto port →
        Opened peers source proto port) := by
  rw [allows_iff_granted, accepts_iff_opened]
  constructor
  · exact fun h henforced hgranted => h (fun _ => hgranted) henforced
  · exact fun h hgranted henforced => h henforced (hgranted henforced)

/-- Two peers with one host: the first speaks of TCP 80 only, the second grants TCP 22. -/
def sharedHost : List Peer :=
  [{ id := 1, wgPublicKey := "first", allowedIps := ["100.64.0.2/32"],
     ingress := some { tcp := ["80"] } },
   { id := 2, wgPublicKey := "second", allowedIps := ["100.64.0.2/32"],
     ingress := some { tcp := ["22"] } }]

/-- One peer that may ping. -/
def pingPeer : List Peer :=
  [{ id := 1, wgPublicKey := "peer", allowedIps := ["100.64.0.2/32"],
     ingress := some { icmp := true } }]

/-- The filter lets in TCP 22 of a shared host, and ICMPv6 over IPv4; the chain rejects both. -/
theorem userspace_beyond_chain :
    ((Policy.compile (sharedHost.map policyPeer) none).allows (.v4 0x64400002) TCP 22 ∧
      (planOverlayFilter (failClosedSsh sharedHost false)).accepts ⟨.v4 0x64400002, 6, 22⟩ =
        false) ∧
    (Policy.compile (pingPeer.map policyPeer) none).allows (.v4 0x64400002) ICMPV6 0 ∧
      (planOverlayFilter (failClosedSsh pingPeer false)).accepts ⟨.v4 0x64400002, 58, 0⟩ =
        false := by
  decide +kernel

end BlakTail.Firewall
