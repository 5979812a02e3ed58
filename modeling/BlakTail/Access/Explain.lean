import BlakTail.Access.Ssh

/-!
# Answers and Grants

Policy tests and the explain view ask the evaluator, devices enforce the compiled grant.
`peerIngressFor_faithful` compares the two for packets with a port; here are the two kinds
of packet it leaves out.
-/

namespace BlakTail.Access

open Foundation AclRule

/-! ## ICMP -/

/-- The rule's protocols let ICMP pass. -/
def AclRule.coversIcmp (rule : AclRule) : Bool := protocolMatches rule.protocols (some .icmp)

/-- The compiler reads the rule as one about ICMP. -/
def AclRule.namesIcmp (rule : AclRule) : Bool := rule.dstPorts.isEmpty && rule.coversIcmp

/-- Only the evaluator does: the rule names ports. -/
def AclRule.straysToIcmp (rule : AclRule) : Bool := !rule.dstPorts.isEmpty && rule.coversIcmp

theorem AclRule.coversIcmp_iff {rule : AclRule} :
    rule.coversIcmp ↔ rule.namesIcmp ∨ rule.straysToIcmp := by
  unfold namesIcmp straysToIcmp
  cases rule.dstPorts.isEmpty <;> simp

theorem AclRule.namesIcmp_of_unrestricted {rule : AclRule} (h : rule.unrestricted) :
    rule.namesIcmp := by
  obtain ⟨hports, hprotocols⟩ := (Bool.and_eq_true _ _).mp h
  simp [namesIcmp, coversIcmp, protocolMatches, hports, hprotocols]

theorem collectServiceSpecs_icmp (acc : Services) (rule : AclRule) :
    (collectServiceSpecs acc rule).icmp ↔ acc.icmp ∨ rule.namesIcmp := by
  unfold collectServiceSpecs namesIcmp coversIcmp protocolMatches
  cases hports : rule.dstPorts.isEmpty
  · simp
  · simp

theorem collectDenied_icmp (acc : Services) (rule : AclRule) :
    (collectDenied acc rule).icmp ↔ acc.icmp ∨ rule.namesIcmp := by
  unfold collectDenied
  rw [Bool.or_eq_true, collectServiceSpecs_icmp]
  simp

namespace Acl

variable {acl : Acl} {now : Int} {s d : Subject}

/-- A rule of this action that selects the pair has the property. -/
def Selects (acl : Acl) (action : Action) (s d : Subject) (p : AclRule → Bool) : Prop :=
  ∃ rule ∈ acl.selectedBy action s d, p rule

/-- The default, or an allow rule without ports, lets ICMP pass. -/
def OpensIcmp (acl : Acl) (s d : Subject) : Prop :=
  acl.implicitDefaultAllows s d ∨ acl.Selects .allow s d namesIcmp

theorem selects_coversIcmp_iff {action : Action} :
    acl.Selects action s d coversIcmp ↔
      acl.Selects action s d namesIcmp ∨ acl.Selects action s d straysToIcmp := by
  simp only [Selects, coversIcmp_iff, and_or_left, exists_or]

theorem denied_icmp :
    (acl.denied s d).icmp ↔ acl.Selects .deny s d namesIcmp := by
  unfold denied
  rw [foldl_adds (P := fun acc : Services => acc.icmp) collectDenied_icmp]
  simp [Selects]

theorem allowed_icmp : (acl.allowed s d).icmp ↔ acl.OpensIcmp s d := by
  unfold allowed OpensIcmp
  by_cases hall : acl.opensAll s d
  · rw [if_pos hall]
    refine ⟨fun _ => ?_, fun _ => rfl⟩
    rcases Bool.or_eq_true_iff.mp hall with hdefault | hany
    · exact .inl hdefault
    · obtain ⟨rule, hrule, hunrestricted⟩ := List.any_eq_true.mp hany
      exact .inr ⟨rule, hrule, rule.namesIcmp_of_unrestricted hunrestricted⟩
  · have hdefault : ¬acl.implicitDefaultAllows s d :=
      fun h => hall (Bool.or_eq_true_iff.mpr (.inl h))
    rw [if_neg hall, or_iff_right hdefault,
      foldl_adds (P := fun acc : Services => acc.icmp) collectServiceSpecs_icmp]
    simp [Selects]

/-- What the compiled grant admits over ICMP. -/
theorem icmp_admits_iff (sshUsersEnforced : Bool) (port : Option Nat) :
    ingressAdmits (acl.peerIngressFor now s d sshUsersEnforced) (some .icmp) port ↔
      ¬acl.Selects .deny s d namesIcmp ∧ acl.OpensIcmp s d := by
  rw [← denied_icmp, ← allowed_icmp]
  unfold peerIngressFor ingressAdmits
  dsimp only
  split
  · next hclosed =>
    -- the unrestricted deny is about ICMP too
    obtain ⟨rule, hrule, hunrestricted⟩ := List.any_eq_true.mp hclosed
    have hdenied : (acl.denied s d).icmp :=
      denied_icmp.mpr ⟨rule, hrule, rule.namesIcmp_of_unrestricted hunrestricted⟩
    simp [hdenied]
  · have hall : acl.opensAll s d → (acl.allowed s d).icmp := by
      intro hall
      rw [allowed, if_pos hall]
    cases hdenied : (acl.denied s d).icmp
    · cases hopens : acl.opensAll s d
      · simp
      · simp [hall hopens]
    · simp

/-- What the evaluator answers for ICMP. -/
theorem allowsFlow_icmp_iff :
    acl.allowsFlow now s d none (some .icmp) none ↔
      ¬acl.Selects .deny s d coversIcmp ∧
        (acl.implicitDefaultAllows s d ∨ acl.Selects .allow s d coversIcmp) := by
  have hmatching : ∀ action, acl.Matching action s d none (some .icmp) ↔
      acl.Selects action s d coversIcmp := by
    intro action
    have hsplit : ∀ rule, acl.ruleMatches rule s d none (some .icmp) none =
        (acl.ruleMatches rule s d none none none && rule.coversIcmp) := by
      simp [ruleMatches, coversIcmp, protocolMatches]
    simp only [Matching, Selects, mem_selectedBy, hsplit, Bool.and_eq_true]
    exact exists_congr fun rule => by tauto
  rw [allowsFlow_iff, hmatching, hmatching]
  simp

/-- The evaluator and the grant agree on ICMP exactly where no rule that names ports and lets
ICMP pass decides: a deny rule without ports does, or such deny rules meet nothing open, and
such allow rules meet something open or denied already. -/
theorem icmp_agrees_iff (acl : Acl) (now : Int) (s d : Subject) (sshUsersEnforced : Bool) :
    (acl.allowsFlow now s d none (some .icmp) none ↔
      ingressAdmits (acl.peerIngressFor now s d sshUsersEnforced) (some .icmp) none) ↔
    acl.Selects .deny s d namesIcmp ∨
      (acl.Selects .deny s d straysToIcmp → ¬acl.OpensIcmp s d) ∧
      (acl.Selects .allow s d straysToIcmp →
        acl.Selects .deny s d straysToIcmp ∨ acl.OpensIcmp s d) := by
  rw [allowsFlow_icmp_iff, icmp_admits_iff, selects_coversIcmp_iff, selects_coversIcmp_iff]
  unfold OpensIcmp
  tauto

/-- Offices reach one port of stores over any protocol. -/
def portAcl : Acl where
  defaults := .deny
  rules := [{ action := .allow, srcTags := [.office], dstTags := [.store], dstPorts := ["443"] }]

/-- A test of this document that asks for ICMP passes, and stores drop it. -/
theorem icmp_disagrees :
    portAcl.validate 0 = .ok () ∧
      portAcl.allowsFlow 0 { tags := [.office] } { tags := [.store] } none (some .icmp) none ∧
      ingressAdmits (portAcl.peerIngressFor 0 { tags := [.office] } { tags := [.store] } true)
        (some .icmp) none = false := by
  decide

/-! ## TCP 22 -/

/-- A grant names somebody exactly where the rules allow some login. -/
theorem sshGrant_named : (acl.sshGrant now s d).1 ≠ [] ↔ ∃ user, acl.allowsSsh now s d user := by
  constructor
  · intro hnamed
    rcases sshGrant_cases acl now s d with ⟨-, hgrant⟩ | ⟨hdeny, hstar, -⟩ | ⟨hdeny, -, hgrant⟩
    · rw [hgrant] at hnamed
      exact absurd rfl hnamed
    · -- `*` itself is a login no name denies
      refine ⟨"*", allowsSsh_iff "*" |>.mpr ⟨.inl hstar, ?_⟩⟩
      rintro (hdenied | hdenied)
      · rw [hdeny] at hdenied
        cases hdenied
      · exact (gathered_names (.inr hdenied)).1 rfl
    · rw [hgrant] at hnamed
      obtain ⟨user, huser⟩ := List.exists_mem_of_ne_nil _ hnamed
      obtain ⟨hallow, hfree⟩ := List.mem_filter.mp huser
      refine ⟨user, allowsSsh_iff user |>.mpr ⟨.inr hallow, ?_⟩⟩
      rintro (hdenied | hdenied)
      · rw [hdeny] at hdenied
        cases hdenied
      · simp [hdenied] at hfree
  · rintro ⟨user, huser⟩
    exact ((passes_iff user).mpr huser).1

/-- What the evaluator answers for TCP 22. -/
theorem allowsFlow_port22_iff :
    acl.allowsFlow now s d (some SSH_PORT) (some .tcp) none ↔
      ¬acl.Denied s d .tcp SSH_PORT ∧
        ¬(acl.sshGoverned s d ∧ (acl.sshGrant now s d).1 = []) ∧
        acl.Granted s d .tcp SSH_PORT := by
  rw [allowsFlow_iff, matching_packet, matching_packet]
  simp [Denied, Granted, Allowed]

/-- For a destination that limits users, the evaluator and the grant agree on TCP 22 exactly
where a network rule or the default decides it, or the SSH rules allow no login. -/
theorem port22_agrees_iff (acl : Acl) (now : Int) (s d : Subject) :
    (acl.allowsFlow now s d (some SSH_PORT) (some .tcp) none ↔
      ingressAdmits (acl.peerIngressFor now s d true) (some .tcp) (some SSH_PORT)) ↔
    acl.Denied s d .tcp SSH_PORT ∨ acl.Granted s d .tcp SSH_PORT ∨
      ∀ user, acl.allowsSsh now s d user = false := by
  have hnamed : acl.sshOpen now s d true ↔ ∃ user, acl.allowsSsh now s d user :=
    sshOpen_enforced.trans sshGrant_named
  have hnobody : (∀ user, acl.allowsSsh now s d user = false) ↔ ¬acl.sshOpen now s d true := by
    rw [hnamed, not_exists]
    exact forall_congr' fun user => Bool.eq_false_iff
  have hempty : (acl.sshGrant now s d).1 = [] ↔ ¬acl.sshOpen now s d true := by
    rw [sshOpen_enforced, not_not]
  rw [allowsFlow_port22_iff, tcp_admits_iff (by decide) (by decide), hnobody, hempty]
  cases acl.sshOpen now s d true
  · tauto
  · tauto

/-- Offices log in to stores, and no network rule says anything. -/
def loginAcl : Acl where
  defaults := .deny
  ssh := [{ action := .allow, srcTags := [.office], dstTags := [.store], users := ["*"] }]

/-- A test of this document that asks for TCP 22 to stay closed passes, and stores open it. -/
theorem port22_disagrees :
    loginAcl.validate 0 = .ok () ∧
      loginAcl.allowsFlow 0 { tags := [.office] } { tags := [.store] } (some SSH_PORT) (some .tcp)
        none = false ∧
      ingressAdmits (loginAcl.peerIngressFor 0 { tags := [.office] } { tags := [.store] } true)
        (some .tcp) (some SSH_PORT) := by
  decide

end Acl

end BlakTail.Access
