import BlakTail.Access.Faithful
import BlakTail.Access.Sshd
import BlakTail.Access.Validate

/-!
# SSH From Rule to Login

An SSH decision passes through three programs: the coordinator gathers users into a
grant, the port compiler opens or closes TCP 22 around it, and the agent writes the
grant into a file sshd reads.  Together they let through exactly the logins the rules
allow.

The gathered users (`SshUsers`) carry the argument: `gathered_allows` and
`gathered_denies` say what they mean for one login, `sshGrant_cases` what is kept of
them, and `passes_iff` that a grant let through by TCP 22 and sshd allows the same
logins as the rules.
-/

namespace BlakTail.Access

open Foundation Control

namespace Acl

variable {acl : Acl} {now : Int} {s d : Subject}

/-! ## Gathering users -/

def SshUsers.Allows (users : SshUsers) (user : String) : Prop :=
  users.allowStar ∨ user ∈ users.allow

/-- The gathered users deny this login. -/
def SshUsers.Denies (users : SshUsers) (user : String) : Prop :=
  users.denyStar ∨ user ∈ users.deny

variable {user : String}

/-- The names an SSH rule adds on the side of denials or of allowances. -/
def addsNamed (acl : Acl) (now : Int) (s d : Subject) (denies : Bool) (rule : AclSshRule) :
    List String :=
  if acl.sshSubjectsMatch rule s d && sshSourceEligible now rule s &&
      decide (rule.action = .deny) == denies then
    rule.users.filter fun named => named ≠ "*"
  else []

/-- Whether it adds `*` there. -/
def addsStar (acl : Acl) (now : Int) (s d : Subject) (denies : Bool) (rule : AclSshRule) : Bool :=
  acl.sshSubjectsMatch rule s d && sshSourceEligible now rule s &&
    decide (rule.action = .deny) == denies && rule.users.any fun named => named = "*"

theorem addSshRule_fields (acl : Acl) (now : Int) (s d : Subject) (acc : SshUsers)
    (rule : AclSshRule) :
    let added := acl.addSshRule now s d acc rule
    added.allow = extendText acc.allow (acl.addsNamed now s d false rule) ∧
      added.deny = extendText acc.deny (acl.addsNamed now s d true rule) ∧
      (added.allowStar ↔
        acc.allowStar ∨ acl.addsStar now s d false rule) ∧
      (added.denyStar ↔ acc.denyStar ∨ acl.addsStar now s d true rule) := by
  unfold addSshRule addsNamed addsStar
  cases acl.sshSubjectsMatch rule s d
  · simp [extendText, extendBy]
  · cases sshSourceEligible now rule s
    · simp [extendText, extendBy]
    · cases rule.action <;> simp [extendText, extendBy]

/-- `*` and the other names of a rule, kept apart, name the same logins. -/
theorem adds_iff {denies : Bool} {rule : AclSshRule} :
    acl.addsStar now s d denies rule ∨ user ∈ acl.addsNamed now s d denies rule ↔
      decide (rule.action = .deny) = denies ∧ acl.sshRuleMatches now rule s d user := by
  have hnames : (rule.users.any fun named => named = "*" || named = user) ↔
      (rule.users.any fun named => named = "*") ∨
        user ∈ rule.users.filter fun named => named ≠ "*" := by
    by_cases hstar : user = "*"
    · simp [hstar]
    · simp [hstar, and_or_left, exists_or]
  unfold addsStar addsNamed sshRuleMatches
  cases acl.sshSubjectsMatch rule s d
  · simp
  · cases sshSourceEligible now rule s
    · simp
    · by_cases haction : decide (rule.action = .deny) = denies
      · simp [haction, hnames]
      · simp [haction]

def gathered (acl : Acl) (now : Int) (s d : Subject) : SshUsers :=
  acl.ssh.foldl (acl.addSshRule now s d) {}

variable (user)

theorem gathered_allows :
    (acl.gathered now s d).Allows user ↔
      ∃ rule ∈ acl.ssh, rule.action ≠ .deny ∧ acl.sshRuleMatches now rule s d user := by
  unfold gathered
  rw [foldl_adds (P := fun users : SshUsers => users.Allows user)
    (Q := fun rule => rule.action ≠ .deny ∧ acl.sshRuleMatches now rule s d user)]
  · simp [SshUsers.Allows]
  · intro acc rule
    obtain ⟨hallow, -, hstar, -⟩ := addSshRule_fields acl now s d acc rule
    rw [SshUsers.Allows, hallow, hstar, mem_extendText, or_or_or_comm, adds_iff,
      decide_eq_false_iff_not]
    rfl

theorem gathered_denies :
    (acl.gathered now s d).Denies user ↔
      ∃ rule ∈ acl.ssh, rule.action = .deny ∧ acl.sshRuleMatches now rule s d user := by
  unfold gathered
  rw [foldl_adds (P := fun users : SshUsers => users.Denies user)
    (Q := fun rule => rule.action = .deny ∧ acl.sshRuleMatches now rule s d user)]
  · simp [SshUsers.Denies]
  · intro acc rule
    obtain ⟨-, hdeny, -, hstar⟩ := addSshRule_fields acl now s d acc rule
    rw [SshUsers.Denies, hdeny, hstar, mem_extendText, or_or_or_comm, adds_iff,
      decide_eq_true_iff]
    rfl

theorem any_sshMatching (wanted : AclSshRule → Bool) :
    ((acl.ssh.filter fun rule => acl.sshRuleMatches now rule s d user).any wanted) ↔
      ∃ rule ∈ acl.ssh, wanted rule ∧ acl.sshRuleMatches now rule s d user := by
  simp only [List.any_filter, List.any_eq_true, Bool.and_eq_true]
  exact exists_congr fun rule => and_congr_right fun _ => and_comm

/-- The evaluator's answer, read off the gathered users. -/
theorem allowsSsh_iff :
    acl.allowsSsh now s d user ↔
      (acl.gathered now s d).Allows user ∧ ¬ (acl.gathered now s d).Denies user := by
  have haction : ∀ rule : AclSshRule,
      (decide (rule.action = .allow) || decide (rule.action = .check)) ↔
        rule.action ≠ .deny := by
    intro rule
    cases rule.action <;> decide
  rw [gathered_allows, gathered_denies]
  unfold allowsSsh
  dsimp only
  -- The evaluator asks for denies first.
  split
  · next hdeny =>
    rw [any_sshMatching] at hdeny
    simp only [decide_eq_true_eq] at hdeny
    exact ⟨fun h => (nomatch h), fun h => absurd hdeny h.2⟩
  · next hdeny =>
    rw [any_sshMatching] at hdeny ⊢
    simp only [decide_eq_true_eq] at hdeny
    simp only [haction]
    exact ⟨fun h => ⟨h, hdeny⟩, fun h => h.1⟩

variable {user}

/-! ## The grant -/

/-- The names gathered are names of rules, without `*`. -/
theorem gathered_names
    (h : user ∈ (acl.gathered now s d).allow ∨ user ∈ (acl.gathered now s d).deny) :
    user ≠ "*" ∧ ∃ rule ∈ acl.ssh, user ∈ rule.users := by
  have hnamed : ∀ denies rule, user ∈ acl.addsNamed now s d denies rule →
      user ∈ rule.users ∧ user ≠ "*" := by
    intro denies rule huser
    unfold addsNamed at huser
    split at huser
    · simpa using huser
    · cases huser
  have hgathered : ∃ denies, ∃ rule ∈ acl.ssh, user ∈ acl.addsNamed now s d denies rule := by
    unfold gathered at h
    rw [foldl_adds (P := fun users : SshUsers => user ∈ users.allow) fun acc rule => by
        rw [(addSshRule_fields acl now s d acc rule).1, mem_extendText],
      foldl_adds (P := fun users : SshUsers => user ∈ users.deny) fun acc rule => by
        rw [(addSshRule_fields acl now s d acc rule).2.1, mem_extendText]] at h
    simpa [or_comm] using h
  obtain ⟨denies, rule, hrule, huser⟩ := hgathered
  obtain ⟨huser, hplain⟩ := hnamed denies rule huser
  exact ⟨hplain, rule, hrule, huser⟩

/-- What is kept of the gathered users. -/
theorem sshGrant_cases (acl : Acl) (now : Int) (s d : Subject) :
    let users := acl.gathered now s d
    users.denyStar ∧ acl.sshGrant now s d = ([], []) ∨
    users.denyStar = false ∧ users.allowStar ∧
      acl.sshGrant now s d = (["*"], users.deny) ∨
    users.denyStar = false ∧ users.allowStar = false ∧
      acl.sshGrant now s d = (users.allow.filter fun user => !users.deny.contains user, []) := by
  have hgrant : acl.sshGrant now s d =
      if (acl.gathered now s d).denyStar then ([], [])
      else if (acl.gathered now s d).allowStar then (["*"], (acl.gathered now s d).deny)
      else ((acl.gathered now s d).allow.filter fun user =>
        !(acl.gathered now s d).deny.contains user, []) := rfl
  dsimp only
  rw [hgrant]
  cases (acl.gathered now s d).denyStar <;> cases (acl.gathered now s d).allowStar <;> simp

/-- Logins a grant lets through once TCP 22 is open: what `sshdAccepts_iff` says, and
that somebody is named. -/
def Passes (grant : List String × List String) (user : String) : Prop :=
  grant.1 ≠ [] ∧ (¬ (grant.1 = ["*"] ∧ grant.2 = []) → user ∉ grant.2 ∧
    ((grant.1.filter fun user => user ≠ "*") = [] ∨
      user ∈ grant.1.filter fun user => user ≠ "*"))

/-- A grant lets through the logins its rules allow. -/
theorem passes_iff (user : String) :
    Passes (acl.sshGrant now s d) user ↔ acl.allowsSsh now s d user := by
  rw [allowsSsh_iff]
  unfold Passes SshUsers.Allows SshUsers.Denies
  rcases sshGrant_cases acl now s d with ⟨hstar, hgrant⟩ | ⟨hdeny, hstar, hgrant⟩ |
    ⟨hdeny, hallow, hgrant⟩
  · -- `*` is denied
    simp [hgrant, hstar]
  · -- `*` is allowed, some names may be denied
    by_cases hnone : (acl.gathered now s d).deny = []
    · simp [hgrant, hstar, hdeny, hnone]
    · simp [hgrant, hstar, hdeny, hnone]
  · -- names only
    have hstar : "*" ∉ (acl.sshGrant now s d).1 := by
      intro hmem
      rw [hgrant] at hmem
      exact (gathered_names (.inl (List.mem_of_mem_filter hmem))).1 rfl
    have hplain : ((acl.sshGrant now s d).1.filter fun user => user ≠ "*") =
        (acl.sshGrant now s d).1 :=
      List.filter_eq_self.mpr fun named hnamed =>
        decide_eq_true fun heq : named = "*" => hstar (heq ▸ hnamed)
    have hnot : (acl.sshGrant now s d).1 ≠ ["*"] :=
      fun heq => hstar (heq ▸ List.mem_singleton_self "*")
    have hnone : (acl.sshGrant now s d).2 = [] := by rw [hgrant]
    have hmem : user ∈ (acl.sshGrant now s d).1 ↔
        user ∈ (acl.gathered now s d).allow ∧ user ∉ (acl.gathered now s d).deny := by
      rw [hgrant]
      simp
    rw [hplain, hnone, hallow, hdeny]
    simp only [Bool.false_eq_true, false_or]
    rw [← hmem]
    constructor
    · rintro ⟨hne, hlimits⟩
      exact (hlimits fun h => hnot h.1).2.resolve_left hne
    · intro huser
      exact ⟨List.ne_nil_of_mem huser, fun _ => ⟨List.not_mem_nil, .inr huser⟩⟩

/-! ## From rule to login -/

theorem validLogin_of_osUser (hvalid : validSshOsUser user) (hplain : user ≠ "*") :
    validLogin user := by
  unfold validSshOsUser at hvalid
  rw [if_neg hplain] at hvalid
  unfold validLogin
  cases hchars : user.toList with
  | nil => simp [hchars] at hvalid
  | cons first rest =>
    simp only [hchars, Bool.and_eq_true] at hvalid ⊢
    exact ⟨⟨hvalid.1.2, hvalid.1.1⟩, hvalid.2⟩

/-- The names in a grant compiled from an accepted document are logins. -/
theorem sshGrant_logins {accepted : Int} (hvalid : acl.validate accepted = .ok ())
    (huser : user ∈ ((acl.sshGrant now s d).1.filter fun user => user ≠ "*") ++
      (acl.sshGrant now s d).2) :
    validLogin user := by
  have hnamed : user ∈ (acl.gathered now s d).allow ∨ user ∈ (acl.gathered now s d).deny := by
    rcases sshGrant_cases acl now s d with ⟨-, hgrant⟩ | ⟨-, -, hgrant⟩ | ⟨-, -, hgrant⟩
    · simp [hgrant] at huser
    · exact .inr (by simpa [hgrant] using huser)
    · simp only [hgrant, List.append_nil] at huser
      exact .inl (List.mem_of_mem_filter (List.mem_of_mem_filter huser))
  obtain ⟨hplain, rule, hrule, hmem⟩ := gathered_names hnamed
  exact validLogin_of_osUser (validate_sshUsers hvalid hrule hmem) hplain

theorem peerIngressFor_ssh (acl : Acl) (now : Int) (s d : Subject) (sshUsersEnforced : Bool) :
    (acl.peerIngressFor now s d sshUsersEnforced).sshUsers = (acl.sshGrant now s d).1 ∧
      (acl.peerIngressFor now s d sshUsersEnforced).sshDenyUsers = (acl.sshGrant now s d).2 := by
  unfold peerIngressFor
  dsimp only
  split <;> exact ⟨rfl, rfl⟩

/-- Where SSH rules decide, TCP 22 is open exactly when the grant opens it and no network
rule denies it. -/
theorem ssh_admits_iff (hgoverned : acl.sshGoverned s d) (sshUsersEnforced : Bool) :
    ingressAdmits (acl.peerIngressFor now s d sshUsersEnforced) (some .tcp) (some SSH_PORT) =
        true ↔
      ¬ acl.Denied s d .tcp SSH_PORT ∧ acl.sshOpen now s d sshUsersEnforced := by
  rw [tcp_admits_iff (by decide) (by decide)]
  simp only [hgoverned, true_and, and_true, not_or, Bool.not_eq_false]
  constructor
  · rintro ⟨⟨hdenied, hopen⟩, -⟩
    exact ⟨hdenied, hopen⟩
  · rintro ⟨hdenied, hopen⟩
    exact ⟨⟨hdenied, hopen⟩, .inr hopen⟩

theorem sshOpen_enforced : acl.sshOpen now s d true ↔ (acl.sshGrant now s d).1 ≠ [] := by
  simp [sshOpen]

theorem sshOpen_unenforced :
    acl.sshOpen now s d false ↔ acl.sshGrant now s d = (["*"], []) := by
  unfold sshOpen
  obtain ⟨users, denyUsers⟩ := acl.sshGrant now s d
  cases users <;> cases denyUsers <;> simp

theorem sshRestricted_iff (sshUsersEnforced : Bool) :
    (acl.peerIngressFor now s d sshUsersEnforced).sshRestricted ↔
      (acl.sshGrant now s d).1 ≠ [] ∧
        ¬ ((acl.sshGrant now s d).1 = ["*"] ∧ (acl.sshGrant now s d).2 = []) := by
  obtain ⟨husers, hdenied⟩ := peerIngressFor_ssh acl now s d sshUsersEnforced
  simp only [PeerIngress.sshRestricted, husers, hdenied, Bool.and_eq_true, Bool.not_eq_true',
    ← Bool.not_eq_true, List.isEmpty_iff, beq_iff_eq, ne_eq]

theorem not_denied_iff {protocol : AclProtocol} {port : Nat} :
    ¬ acl.Denied s d protocol port ↔ ∀ rule ∈ acl.rules, rule.action = .deny →
      acl.ruleMatches rule s d (some port) (some protocol) none = false := by
  rw [Denied, ← matching_packet]
  simp [Matching]

/-- sshd lets in whom the grant of the client's row lets in, where somebody is named. -/
theorem sshdAccepts_grant {accepted : Int} (hvalid : acl.validate accepted = .ok ())
    {peers : List Peer} {peer : Peer} {client : String} (hclient : ClientOf peers peer client)
    (hingress : peer.ingress = some (acl.peerIngressFor now s d true))
    (hnamed : (acl.sshGrant now s d).1 ≠ []) (user : String) :
    sshdAccepts (sshdPolicyConfig peers) client user ↔
      Passes (acl.sshGrant now s d) user := by
  obtain ⟨husers, hdenied⟩ := peerIngressFor_ssh acl now s d true
  rw [sshdAccepts_iff hclient hingress, sshRestricted_iff]
  · unfold Passes allowedLogins
    simp only [husers, hdenied, hnamed, ne_eq, not_false_eq_true, true_and]
  · -- every name the grant holds is a login
    intro name hname
    unfold allowedLogins at hname
    rw [husers, hdenied] at hname
    exact sshGrant_logins hvalid hname

/-- SSH policy is enforced exactly.  `peer` is the row `d` holds for `s`, and `client` an
address of that row and of no other.

With proven user limits, a session from `s` as `user` passes TCP 22 and sshd exactly when
the rules allow the login and no network rule denies TCP 22.  Without them TCP 22 is
open only where every login is allowed. -/
theorem ssh_enforced (acl : Acl) (accepted now : Int) (s d : Subject)
    (hvalid : acl.validate accepted = .ok ()) (hgoverned : acl.sshGoverned s d) :
    (∀ (peers : List Peer) (peer : Peer) (client user : String),
      ClientOf peers peer client → peer.ingress = some (acl.peerIngressFor now s d true) →
      (ingressAdmits (acl.peerIngressFor now s d true) (some .tcp) (some SSH_PORT) ∧
          sshdAccepts (sshdPolicyConfig peers) client user ↔
        acl.allowsSsh now s d user ∧
          ∀ rule ∈ acl.rules, rule.action = .deny →
            acl.ruleMatches rule s d (some SSH_PORT) (some .tcp) none = false)) ∧
    (ingressAdmits (acl.peerIngressFor now s d false) (some .tcp) (some SSH_PORT) →
      acl.sshGrant now s d = (["*"], []) ∧
        ∀ user, acl.allowsSsh now s d user) := by
  refine ⟨?_, ?_⟩
  · intro peers peer client user hclient hingress
    rw [ssh_admits_iff hgoverned, sshOpen_enforced, not_denied_iff]
    by_cases hnamed : (acl.sshGrant now s d).1 = []
    · -- nobody is named: TCP 22 stays closed, and no rule allows anybody
      have hnobody : ¬ acl.allowsSsh now s d user := by
        rw [← passes_iff]
        exact fun h => h.1 hnamed
      simp [hnamed, hnobody]
    · rw [sshdAccepts_grant hvalid hclient hingress hnamed, passes_iff]
      exact ⟨fun h => ⟨h.2, h.1.1⟩, fun h => ⟨⟨h.2, hnamed⟩, h.1⟩⟩
  · -- Without proven limits only an unlimited grant opens TCP 22.
    intro hadmits
    have hgrant := sshOpen_unenforced.mp ((ssh_admits_iff hgoverned false).mp hadmits).2
    refine ⟨hgrant, fun user => ?_⟩
    rw [← passes_iff, hgrant]
    exact ⟨List.cons_ne_nil _ _, fun h => absurd ⟨rfl, rfl⟩ h⟩

/-- Offices log in to stores as anybody but root. -/
def opsAcl : Acl where
  defaults := .deny
  ssh := [
    { action := .allow, srcTags := [.office], dstTags := [.store], users := ["*"] },
    { action := .deny, dstTags := [.store], users := ["root"] }]

/-- The row a store holds for an office. -/
def officeRow : Peer where
  id := 1
  wgPublicKey := "office"
  allowedIps := ["100.64.0.2/32"]
  ingress := some (opsAcl.peerIngressFor 0 { tags := [.office] } { tags := [.store] } true)

theorem ssh_enforced_ops :
    opsAcl.validate 0 = .ok () ∧
      sshdAccepts (sshdPolicyConfig [officeRow]) "100.64.0.2" "deploy" = true ∧
      ¬ sshdAccepts (sshdPolicyConfig [officeRow]) "100.64.0.2" "root" = true := by
  have hclient : ClientOf [officeRow] officeRow "100.64.0.2" :=
    ⟨List.mem_singleton_self _, by decide, fun other hother _ => List.mem_singleton.mp hother⟩
  have henforced := (ssh_enforced opsAcl 0 0 { tags := [.office] } { tags := [.store] }
    (by decide) (by decide)).1 [officeRow] officeRow "100.64.0.2"
  refine ⟨by decide, ?_, ?_⟩
  · exact ((henforced "deploy" hclient rfl).mpr ⟨by decide, by decide⟩).2
  · intro haccepted
    have hallowed := ((henforced "root" hclient rfl).mp ⟨by decide, haccepted⟩).1
    exact absurd hallowed (by decide)

end Acl

/-! ## The agent's own backstop -/

/-- Close TCP 22 in a user-limited grant. -/
def failClosedIngress (ingress : PeerIngress) : PeerIngress :=
  if ingress.sshRestricted && !ingress.denyTcp.contains "22" then
    { ingress with denyTcp := ingress.denyTcp ++ ["22"] }
  else ingress

/-- Without proven user limits the agent closes TCP 22 for every user-limited source. -/
def failClosedSsh (peers : List Peer) (usersEnforced : Bool) : List Peer :=
  if usersEnforced then peers
  else peers.map fun peer => { peer with ingress := peer.ingress.map failClosedIngress }

/-- Whatever the coordinator sent, such an agent opens TCP 22 to nobody it would have to
limit. -/
theorem failClosedSsh_admits {peers : List Peer} {peer : Peer} {ingress : PeerIngress}
    (hpeer : peer ∈ failClosedSsh peers false) (hingress : peer.ingress = some ingress)
    (hadmits : ingressAdmits ingress (some .tcp) (some SSH_PORT)) :
    ingress.sshRestricted = false := by
  obtain ⟨sent, -, rfl⟩ := List.mem_map.mp hpeer
  obtain ⟨grant, -, rfl⟩ := Option.map_eq_some_iff.mp hingress
  have hopen := (Acl.ingressAdmits_tcp.mp hadmits).1
  have h22 : specCovers "22" SSH_PORT := by decide
  unfold failClosedIngress at hopen ⊢
  split at hopen
  · exact absurd (specsCover_iff.mpr ⟨"22", by simp, h22⟩) hopen
  · next hkept =>
    rw [if_neg hkept]
    by_contra hrestricted
    have hlisted : grant.sshRestricted → "22" ∈ grant.denyTcp := by simpa using hkept
    exact hopen (specsCover_iff.mpr ⟨"22", hlisted (by simpa using hrestricted), h22⟩)

end BlakTail.Access
