import BlakTail.Access.Compile

/-!
# Compilation Is Faithful

One side evaluates the rules for a packet, the other folds them into port sets.  Both
are compared with what the document means for a pair of devices, `Acl.Permits`: no
deny rule covers the packet, and the default or an allow rule does.

TCP 22 is the one port where SSH rules have a say; `tcp_admits_iff` states the
compiled answer there as well, and the SSH development builds on it.

Nothing here needs a validated document: a malformed port specification covers no
port on either side.
-/

namespace BlakTail.Access

open Foundation

/-! ## Port specifications -/

variable {port : Nat}

theorem specsCover_iff {specs : List String} :
    specsCover specs port ↔ ∃ spec ∈ specs, specCovers spec port := by
  simp [specsCover]

theorem specsCover_insertText {spec : String} {set : List String} :
    specsCover (insertText spec set) port ↔
      specCovers spec port ∨ specsCover set port := by
  simp only [specsCover_iff, mem_insertText]
  constructor
  · rintro ⟨named, rfl | hnamed, hcovers⟩
    · exact .inl hcovers
    · exact .inr ⟨named, hnamed, hcovers⟩
  · rintro (hcovers | ⟨named, hnamed, hcovers⟩)
    · exact ⟨spec, .inl rfl, hcovers⟩
    · exact ⟨named, .inr hnamed, hcovers⟩

theorem specsCover_extendText {set more : List String} :
    specsCover (extendText set more) port ↔
      specsCover set port ∨ specsCover more port := by
  simp only [specsCover_iff, mem_extendText]
  constructor
  · rintro ⟨named, hnamed | hnamed, hcovers⟩
    · exact .inl ⟨named, hnamed, hcovers⟩
    · exact .inr ⟨named, hnamed, hcovers⟩
  · rintro (⟨named, hnamed, hcovers⟩ | ⟨named, hnamed, hcovers⟩)
    · exact ⟨named, .inl hnamed, hcovers⟩
    · exact ⟨named, .inr hnamed, hcovers⟩

/-- A readable specification is a range of ports that begins after 0. -/
theorem parseAclPortSpec_bounds {spec : String}
    {first last : Nat} (h : parseAclPortSpec spec = .ok (first, last)) :
    1 ≤ first ∧ first ≤ last ∧ last ≤ 65535 := by
  unfold parseAclPortSpec at h
  dsimp only at h
  split at h
  · cases h
    exact ⟨by decide, by decide, by decide⟩
  split at h
  next low high hlow hhigh =>
    split at h
    · cases h
    next hvalid =>
      cases h
      have hbound := Text.parseUnsignedChars_le hhigh
      omega
  · cases h

theorem specCovers_zero (spec : String) : specCovers spec 0 = false := by
  unfold specCovers
  cases hspec : parseAclPortSpec spec with
  | error _ => rfl
  | ok bounds =>
    have hfirst := (parseAclPortSpec_bounds hspec).1
    have hnot : ¬ bounds.1 ≤ 0 := by omega
    simp [hnot]

/-- The specification written for a rule without ports covers every port. -/
theorem specCovers_anyPort (hlow : 1 ≤ port) (hhigh : port ≤ 65535) :
    specCovers "1-65535" port := by
  have hparse : parseAclPortSpec "1-65535" = .ok (1, 65535) := by decide
  simp [specCovers, hparse, hlow, hhigh]

/-- A port number is read back as that port. -/
theorem parseAclPortSpec_toString {n : Nat} (hlow : 1 ≤ n) (hhigh : n ≤ 65535) :
    parseAclPortSpec (toString n) = .ok (n, n) := by
  have hstar : toString n ≠ "*" := by
    intro heq
    have hmem : '*' ∈ (toString n).toList := by rw [heq]; decide
    exact Text.toString_no (by decide) hmem
  have hwhole : Text.splitOnce '-' (toString n) = none :=
    Text.splitOnce_eq_none (Text.toString_no (by decide))
  unfold parseAclPortSpec
  simp only [Text.trim_toString, hstar, hwhole, if_false, Option.getD_none,
    Text.parseU16_toString hhigh]
  rw [if_neg (by omega)]

/-- A port number covers itself alone; port 0 covers none. -/
theorem specCovers_toString {n : Nat} (hhigh : n ≤ 65535) (hport : 1 ≤ port) :
    specCovers (toString n) port ↔ n = port := by
  by_cases hlow : 1 ≤ n
  · rw [specCovers, parseAclPortSpec_toString hlow hhigh]
    simp only [Bool.and_eq_true, decide_eq_true_eq]
    omega
  · obtain rfl : n = 0 := by omega
    exact ⟨fun h => (nomatch h), fun h => by omega⟩

theorem specCovers_port22 : specCovers (toString SSH_PORT) port ↔ port = SSH_PORT := by
  rw [specCovers, parseAclPortSpec_toString (by decide) (by decide)]
  simp only [Bool.and_eq_true, decide_eq_true_eq]
  omega

/-! ## Gathering specifications -/

/-- The rule covers packets of this protocol and port. -/
def AclRule.covers (rule : AclRule) (protocol : AclProtocol) (port : Nat) : Bool :=
  portSpecMatches rule.dstPorts (some port) && protocolMatches rule.protocols (some protocol)

theorem AclRule.covers_of_unrestricted {rule : AclRule} (h : rule.unrestricted)
    (protocol : AclProtocol) (port : Nat) : rule.covers protocol port := by
  obtain ⟨hports, hprotocols⟩ := (Bool.and_eq_true _ _).mp h
  simp [covers, portSpecMatches, protocolMatches, hports, hprotocols]

/-- The specifications gathered for TCP or UDP; ICMP has no ports. -/
def Services.specs (services : Services) : AclProtocol → List String
  | .tcp => services.tcp
  | .udp => services.udp
  | .icmp => []

/-- The specifications a rule adds for a protocol. -/
def AclRule.names (rule : AclRule) (protocol : AclProtocol) : List String :=
  if protocol ≠ .icmp ∧ (rule.protocols.isEmpty || rule.protocols.contains protocol) = true then
    if rule.dstPorts.isEmpty then ["1-65535"] else rule.dstPorts
  else []

theorem collectServiceSpecs_specs (protocol : AclProtocol) (acc : Services) (rule : AclRule) :
    (collectServiceSpecs acc rule).specs protocol =
      extendText (acc.specs protocol) (rule.names protocol) := by
  unfold collectServiceSpecs AclRule.names
  dsimp only
  cases protocol with
  | icmp => rfl
  | tcp =>
    cases rule.dstPorts.isEmpty <;>
      cases rule.protocols.isEmpty || rule.protocols.contains .tcp <;> rfl
  | udp =>
    cases rule.dstPorts.isEmpty <;>
      cases rule.protocols.isEmpty || rule.protocols.contains .udp <;> rfl

theorem collectDenied_specs (protocol : AclProtocol) (acc : Services) (rule : AclRule) :
    (collectDenied acc rule).specs protocol =
      extendText (acc.specs protocol) ((collectServiceSpecs {} rule).specs protocol) := by
  cases protocol <;> rfl

section Gathering

variable {protocol : AclProtocol} {port : Nat} (hprotocol : protocol ≠ .icmp) (hlow : 1 ≤ port)
  (hhigh : port ≤ 65535)

include hprotocol hlow hhigh

theorem names_covers (rule : AclRule) :
    specsCover (rule.names protocol) port ↔ rule.covers protocol port := by
  have hany := specCovers_anyPort hlow hhigh
  unfold AclRule.names AclRule.covers portSpecMatches protocolMatches
  dsimp only
  -- a rule names everything, its ports, or nothing
  cases rule.dstPorts.isEmpty <;>
    cases rule.protocols.isEmpty || rule.protocols.contains protocol <;>
    simp [specsCover, hprotocol, hany]

theorem collectServiceSpecs_covers (acc : Services) (rule : AclRule) :
    specsCover ((collectServiceSpecs acc rule).specs protocol) port ↔
      specsCover (acc.specs protocol) port ∨ rule.covers protocol port := by
  rw [collectServiceSpecs_specs, specsCover_extendText, names_covers hprotocol hlow hhigh]

theorem collectDenied_covers (acc : Services) (rule : AclRule) :
    specsCover ((collectDenied acc rule).specs protocol) port ↔
      specsCover (acc.specs protocol) port ∨ rule.covers protocol port := by
  rw [collectDenied_specs, specsCover_extendText, collectServiceSpecs_covers hprotocol hlow hhigh]
  cases protocol <;> simp [Services.specs, specsCover]

end Gathering

/-! ## What the document means -/

namespace Acl

variable {acl : Acl} {now : Int} {s d : Subject} {protocol : AclProtocol} {port : Nat}

theorem mem_selectedBy {action : Action} {rule : AclRule} :
    rule ∈ acl.selectedBy action s d ↔
      (rule ∈ acl.rules ∧ acl.ruleMatches rule s d none none none) ∧
        rule.action = action := by
  simp only [selectedBy, selected, List.mem_filter, decide_eq_true_eq]

/-- A deny rule that selects the pair covers the packet. -/
def Denied (acl : Acl) (s d : Subject) (protocol : AclProtocol) (port : Nat) : Prop :=
  ∃ rule ∈ acl.selectedBy .deny s d, rule.covers protocol port

/-- An allow rule that selects the pair covers the packet. -/
def Allowed (acl : Acl) (s d : Subject) (protocol : AclProtocol) (port : Nat) : Prop :=
  ∃ rule ∈ acl.selectedBy .allow s d, rule.covers protocol port

/-- The default or an allow rule lets the packet pass. -/
def Granted (acl : Acl) (s d : Subject) (protocol : AclProtocol) (port : Nat) : Prop :=
  acl.implicitDefaultAllows s d ∨ acl.Allowed s d protocol port

/-- What the network rules of the document mean for a packet. -/
def Permits (acl : Acl) (s d : Subject) (protocol : AclProtocol) (port : Nat) : Prop :=
  ¬ acl.Denied s d protocol port ∧ acl.Granted s d protocol port

/-- A question with a port and protocol splits into the pair and the packet. -/
theorem ruleMatches_packet (rule : AclRule) (protocol : AclProtocol) (port : Nat)
    (host : Option String) : acl.ruleMatches rule s d (some port) (some protocol) host =
      (acl.ruleMatches rule s d none none host && rule.covers protocol port) := by
  simp only [ruleMatches, AclRule.covers]
  simp [portSpecMatches, protocolMatches, Bool.and_assoc]

/-- A rule of this action matches the question. -/
def Matching (acl : Acl) (action : Action) (s d : Subject) (port : Option Nat)
    (protocol : Option AclProtocol) : Prop :=
  ∃ rule ∈ acl.rules, rule.action = action ∧ acl.ruleMatches rule s d port protocol none

theorem matching_packet {action : Action} {port : Nat} :
    acl.Matching action s d (some port) (some protocol) ↔
      ∃ rule ∈ acl.selectedBy action s d, rule.covers protocol port := by
  simp only [Matching, mem_selectedBy, ruleMatches_packet, Bool.and_eq_true]
  exact exists_congr fun rule => by tauto

/-- The evaluator asks for deny rules, for SSH rules on TCP 22, for allow rules and for the
default. -/
theorem allowsFlow_iff {port : Option Nat} {protocol : Option AclProtocol} :
    acl.allowsFlow now s d port protocol none ↔
      ¬ acl.Matching .deny s d port protocol ∧
      ¬ (port = some SSH_PORT ∧ (protocol = none ∨ protocol = some .tcp) ∧
        acl.sshGoverned s d ∧ (acl.sshGrant now s d).1 = []) ∧
      (acl.implicitDefaultAllows s d ∨ acl.Matching .allow s d port protocol) := by
  have hmatching : ∀ action, ((acl.rules.filter fun rule =>
      acl.ruleMatches rule s d port protocol none).any fun rule => rule.action = action) ↔
        acl.Matching action s d port protocol := by
    intro action
    simp only [Matching, List.any_eq_true, List.mem_filter, decide_eq_true_eq]
    exact exists_congr fun rule => by tauto
  rw [← hmatching .deny, ← hmatching .allow]
  unfold allowsFlow
  simp only [Option.isNone_none, Bool.true_and, Option.isSome_none, Bool.false_eq_true, if_false,
    Bool.and_eq_true, decide_eq_true_eq, Bool.or_eq_true, List.isEmpty_iff]
  split_ifs <;> tauto

/-- Away from TCP 22 the evaluator computes what the document means. -/
theorem allowsFlow_iff_permits (hssh : ¬ (protocol = .tcp ∧ port = SSH_PORT)) :
    acl.allowsFlow now s d (some port) (some protocol) none ↔
      acl.Permits s d protocol port := by
  rw [allowsFlow_iff, matching_packet, matching_packet]
  refine and_congr_right fun _ => and_iff_right ?_
  -- the SSH clause asks for TCP 22
  rintro ⟨hport, hprotocol, -⟩
  exact hssh ⟨by simpa using hprotocol, Option.some.inj hport⟩

/-! ## What the grant admits -/

theorem ingressAdmits_udp {ingress : PeerIngress} :
    ingressAdmits ingress (some .udp) (some port) ↔
      ¬ specsCover ingress.denyUdp port ∧
        (ingress.all ∨ specsCover ingress.udp port) := by
  simp [ingressAdmits, deniesPort, coversPort]

theorem ingressAdmits_tcp {ingress : PeerIngress} :
    ingressAdmits ingress (some .tcp) (some port) ↔
      ¬ specsCover ingress.denyTcp port ∧
        (ingress.all ∨ specsCover ingress.tcp port) := by
  simp [ingressAdmits, deniesPort, coversPort]

section Ports

variable {protocol : AclProtocol} {port : Nat} {denyTcp : List String}

theorem any_unrestricted_covers {rules : List AclRule} (h : rules.any AclRule.unrestricted)
    (protocol : AclProtocol) (port : Nat) : ∃ rule ∈ rules, rule.covers protocol port := by
  obtain ⟨rule, hrule, hunrestricted⟩ := List.any_eq_true.mp h
  exact ⟨rule, hrule, rule.covers_of_unrestricted hunrestricted protocol port⟩

/-- The unrestricted deny closes every port. -/
theorem denied_of_closesAll (h : acl.closesAll s d) : acl.Denied s d protocol port :=
  any_unrestricted_covers h protocol port

theorem granted_of_opensAll (h : acl.opensAll s d) : acl.Granted s d protocol port := by
  rcases Bool.or_eq_true_iff.mp h with hdefault | hunrestricted
  · exact .inl hdefault
  · exact .inr (any_unrestricted_covers hunrestricted protocol port)

theorem granted_of_not_opensAll (h : ¬ acl.opensAll s d) :
    acl.Granted s d protocol port ↔ acl.Allowed s d protocol port := by
  refine ⟨?_, .inr⟩
  rintro (hdefault | hallowed)
  · exact absurd (Bool.or_eq_true_iff.mpr (.inl hdefault)) h
  · exact hallowed

theorem closePort22_covers :
    specsCover (closePort22 denyTcp) port ↔
      specsCover denyTcp port ∨ port = SSH_PORT := by
  unfold closePort22
  split
  · next hcovered =>
    refine ⟨.inl, ?_⟩
    rintro (h | rfl)
    · exact h
    · exact hcovered
  · rw [specsCover_insertText, specCovers_port22, or_comm]

/-- Closing TCP 22 on a condition. -/
theorem closePort22_if_covers {governed opened : Bool} :
    specsCover (if governed && !opened then closePort22 denyTcp else denyTcp) port ↔
      specsCover denyTcp port ∨ governed ∧ opened = false ∧ port = SSH_PORT := by
  cases governed <;> cases opened <;> simp [closePort22_covers]

/-- Where the port is not denied, opening TCP 22 opens exactly that. -/
theorem openPort22_covers {tcp : List String} (hfree : ¬ specsCover denyTcp port) :
    specsCover (openPort22 denyTcp tcp) port ↔
      specsCover tcp port ∨ port = SSH_PORT := by
  unfold openPort22
  split
  · rw [specsCover_insertText, specCovers_port22, or_comm]
  · next hclosed =>
    refine ⟨.inl, ?_⟩
    rintro (h | rfl)
    · exact h
    · simp only [Bool.and_eq_true, Bool.not_eq_true', not_and, Bool.not_eq_false] at hclosed
      exact hclosed (Bool.eq_false_iff.mpr hfree)

/-- Opening TCP 22 on a condition, beside the short cut `all`. -/
theorem openPort22_if_covers {tcp : List String} {all opened : Bool}
    (hfree : ¬ specsCover denyTcp port) :
    (all ∨
        specsCover (if !all && opened then openPort22 denyTcp tcp else tcp) port) ↔
      (all ∨ specsCover tcp port) ∨ opened ∧ port = SSH_PORT := by
  cases all <;> cases opened <;> simp [openPort22_covers hfree]

section Range

variable (hprotocol : protocol ≠ .icmp) (hlow : 1 ≤ port) (hhigh : port ≤ 65535)

include hprotocol hlow hhigh

theorem denied_covers :
    specsCover ((acl.denied s d).specs protocol) port ↔ acl.Denied s d protocol port := by
  unfold denied
  rw [foldl_adds (P := fun acc : Services => specsCover (acc.specs protocol) port)
    (collectDenied_covers hprotocol hlow hhigh)]
  cases protocol <;> simp [Services.specs, specsCover, Denied]

/-- The short cut `all` and the gathered sets together cover what is granted. -/
theorem allowed_covers :
    acl.opensAll s d ∨ specsCover ((acl.allowed s d).specs protocol) port ↔
      acl.Granted s d protocol port := by
  by_cases hall : acl.opensAll s d
  · exact ⟨fun _ => granted_of_opensAll hall, fun _ => .inl hall⟩
  · unfold allowed
    rw [granted_of_not_opensAll hall, if_neg hall, or_iff_right hall,
      foldl_adds (P := fun acc : Services => specsCover (acc.specs protocol) port)
        (collectServiceSpecs_covers hprotocol hlow hhigh)]
    cases protocol <;> simp [Services.specs, specsCover, Allowed]

end Range

variable (hlow : 1 ≤ port) (hhigh : port ≤ 65535)

include hlow hhigh

/-- What the compiled grant admits over UDP is what the document means. -/
theorem udp_admits_iff (sshUsersEnforced : Bool) :
    ingressAdmits (acl.peerIngressFor now s d sshUsersEnforced) (some .udp) (some port) ↔
      acl.Permits s d .udp port := by
  have hudp : AclProtocol.udp ≠ .icmp := nofun
  rw [ingressAdmits_udp]
  unfold peerIngressFor Permits
  dsimp only
  split
  · next hclosed => simp [specsCover, denied_of_closesAll hclosed]
  · rw [← denied_covers hudp hlow hhigh, ← allowed_covers hudp hlow hhigh]
    rfl

/-- What the compiled grant admits over TCP.  Port 22 is opened and closed by the SSH
rules on top of what the network rules say. -/
theorem tcp_admits_iff (sshUsersEnforced : Bool) :
    ingressAdmits (acl.peerIngressFor now s d sshUsersEnforced) (some .tcp) (some port) ↔
      ¬ (acl.Denied s d .tcp port ∨ acl.sshGoverned s d ∧
        acl.sshOpen now s d sshUsersEnforced = false ∧ port = SSH_PORT) ∧
      (acl.Granted s d .tcp port ∨
        acl.sshOpen now s d sshUsersEnforced ∧ port = SSH_PORT) := by
  have htcp : AclProtocol.tcp ≠ .icmp := nofun
  rw [ingressAdmits_tcp]
  unfold peerIngressFor
  dsimp only
  split
  · next hclosed => simp [specsCover, denied_of_closesAll hclosed]
  · rw [← denied_covers htcp hlow hhigh, ← allowed_covers htcp hlow hhigh]
    refine (and_congr_right fun hfree => openPort22_if_covers hfree).trans ?_
    rw [closePort22_if_covers]
    rfl

/-! ## Faithful compilation -/

omit hlow hhigh in
/-- The grant compiled for a pair admits a packet exactly where the evaluator lets it
pass, for every document, clock and SSH capability.  TCP 22 is apart: SSH rules open
it in the grant for the users they name. -/
theorem peerIngressFor_faithful (acl : Acl) (now : Int) (s d : Subject) (sshUsersEnforced : Bool)
    (protocol : AclProtocol) (port : Nat) (hlow : 1 ≤ port) (hhigh : port ≤ 65535)
    (hpacket : protocol = .udp ∨ protocol = .tcp ∧ port ≠ SSH_PORT) :
    ingressAdmits (acl.peerIngressFor now s d sshUsersEnforced) (some protocol) (some port) =
      acl.allowsFlow now s d (some port) (some protocol) none := by
  have hssh : ¬ (protocol = .tcp ∧ port = SSH_PORT) := by
    rcases hpacket with rfl | ⟨-, hport⟩
    · exact fun h => nomatch h.1
    · exact fun h => hport h.2
  rw [Bool.eq_iff_iff, allowsFlow_iff_permits hssh]
  rcases hpacket with rfl | ⟨rfl, hport⟩
  · exact udp_admits_iff hlow hhigh sshUsersEnforced
  · rw [tcp_admits_iff hlow hhigh sshUsersEnforced, Permits]
    simp only [hport, and_false, or_false]

end Ports

/-- Offices reach the web ports of stores, except one. -/
def storeAcl : Acl where
  defaults := .deny
  rules := [
    { action := .allow, srcTags := [.office], dstTags := [.store], dstPorts := ["8000-8010"],
      protocols := [.tcp] },
    { action := .deny, dstTags := [.store], dstPorts := ["8005"] }]

theorem peerIngressFor_faithful_store :
    ingressAdmits (storeAcl.peerIngressFor 0 { tags := [.office] } { tags := [.store] } false)
        (some .tcp) (some 8004) ∧
      ingressAdmits (storeAcl.peerIngressFor 0 { tags := [.office] } { tags := [.store] } false)
        (some .tcp) (some 8005) = false := by
  refine ⟨?_, ?_⟩
  · rw [peerIngressFor_faithful _ _ _ _ _ _ _ (by decide) (by decide) (.inr (by decide))]
    decide
  · rw [peerIngressFor_faithful _ _ _ _ _ _ _ (by decide) (by decide) (.inr (by decide))]
    decide

end Acl

end BlakTail.Access
