import BlakTail.Access.Explain

/-!
# Stricter Documents Compile to Narrower Grants

The compiler has short cuts: `all`, the unrestricted deny, the inserted and the closed
SSH port.  None of them lets a stricter input produce a wider grant.
-/

namespace BlakTail.Access

open Foundation

/-! ## Gathering does not depend on order -/

theorem any_eq_of_mem_iff {α : Type} {xs ys : List α} (h : ∀ x, x ∈ xs ↔ x ∈ ys) (p : α → Bool) :
    xs.any p = ys.any p := by
  rw [Bool.eq_iff_iff]
  simp only [List.any_eq_true, h]

/-- A step that adds what a rule names gathers the same from the same rules in any order. -/
theorem gather_reorder {step : Services → AclRule → Services}
    {texts : AclProtocol → AclRule → List String}
    (hspecs : ∀ protocol acc rule, (step acc rule).specs protocol =
      extendText (acc.specs protocol) (texts protocol rule))
    (hicmp : ∀ acc rule, (step acc rule).icmp ↔ acc.icmp ∨ rule.namesIcmp)
    {xs ys : List AclRule} (hmem : ∀ rule, rule ∈ xs ↔ rule ∈ ys) :
    xs.foldl step {} = ys.foldl step {} := by
  have htcp := foldl_texts_eq (T := Services.tcp) (hspecs .tcp) hmem (s := {}) List.Pairwise.nil
  have hudp := foldl_texts_eq (T := Services.udp) (hspecs .udp) hmem (s := {}) List.Pairwise.nil
  have hflag := foldl_flag_eq (F := Services.icmp) hicmp hmem {}
  generalize xs.foldl step {} = a at *
  generalize ys.foldl step {} = b at *
  cases a
  simp only at htcp hudp hflag
  rw [htcp, hudp, hflag]

namespace Acl

variable {acl acl' : Acl} {now now' : Int} {s s' d : Subject} {protocol : AclProtocol}
  {after : List AclRule}

/-- The users gathered do not depend on the order of the SSH rules. -/
theorem gathered_reorder {xs ys : List AclSshRule} (hmem : ∀ rule, rule ∈ xs ↔ rule ∈ ys) :
    xs.foldl (acl.addSshRule now s d) {} = ys.foldl (acl.addSshRule now s d) {} := by
  have hfields := addSshRule_fields acl now s d
  have hallow := foldl_texts_eq (T := SshUsers.allow) (fun acc rule => (hfields acc rule).1) hmem
    (s := {}) List.Pairwise.nil
  have hdeny := foldl_texts_eq (T := SshUsers.deny) (fun acc rule => (hfields acc rule).2.1) hmem
    (s := {}) List.Pairwise.nil
  have hallowStar := foldl_flag_eq (F := SshUsers.allowStar)
    (fun acc rule => (hfields acc rule).2.2.1) hmem {}
  have hdenyStar := foldl_flag_eq (F := SshUsers.denyStar)
    (fun acc rule => (hfields acc rule).2.2.2) hmem {}
  generalize xs.foldl (acl.addSshRule now s d) {} = a at *
  generalize ys.foldl (acl.addSshRule now s d) {} = b at *
  cases a
  simp only at hallow hdeny hallowStar hdenyStar
  rw [hallow, hdeny, hallowStar, hdenyStar]

/-- The grant depends on which rules there are, not on their order. -/
theorem peerIngressFor_reorder {rules : List AclRule} {ssh : List AclSshRule}
    (hrules : ∀ rule, rule ∈ rules ↔ rule ∈ acl.rules) (hssh : ∀ rule, rule ∈ ssh ↔ rule ∈ acl.ssh)
    (sshUsersEnforced : Bool) :
    { acl with rules := rules, ssh := ssh }.peerIngressFor now s d sshUsersEnforced =
      acl.peerIngressFor now s d sshUsersEnforced := by
  generalize hreordered : ({ acl with rules := rules, ssh := ssh } : Acl) = acl'
  have hselected : ∀ action rule,
      rule ∈ acl'.selectedBy action s d ↔ rule ∈ acl.selectedBy action s d := by
    intro action rule
    subst hreordered
    rw [mem_selectedBy, mem_selectedBy, hrules]
    rfl
  have hcloses : acl'.closesAll s d = acl.closesAll s d := any_eq_of_mem_iff (hselected .deny) _
  have hopens : acl'.opensAll s d = acl.opensAll s d := by
    have hdefault : acl'.implicitDefaultAllows s d = acl.implicitDefaultAllows s d := by
      subst hreordered
      rfl
    rw [opensAll, opensAll, hdefault, any_eq_of_mem_iff (hselected .allow)]
  have hdenied : acl'.denied s d = acl.denied s d :=
    gather_reorder collectDenied_specs collectDenied_icmp (hselected .deny)
  have hallowed : acl'.allowed s d = acl.allowed s d := by
    rw [allowed, allowed, hopens, gather_reorder collectServiceSpecs_specs
      collectServiceSpecs_icmp (hselected .allow)]
  have hgoverned : acl'.sshGoverned s d = acl.sshGoverned s d := by
    subst hreordered
    exact any_eq_of_mem_iff hssh _
  have hgrant : acl'.sshGrant now s d = acl.sshGrant now s d := by
    subst hreordered
    exact congrArg (fun users : SshUsers => if users.denyStar then ([], [])
      else if users.allowStar then (["*"], users.deny)
      else (users.allow.filter fun user => !users.deny.contains user, [])) (gathered_reorder hssh)
  unfold peerIngressFor sshOpen
  rw [hcloses, hopens, hdenied, hallowed, hgoverned, hgrant]

/-! ## Tightening -/

/-- `acl'`, read at `now'` for `s'`, allows no more than `acl` at `now` for `s`: it keeps the
deny rules that select the pair, has no further allow rules, and allows no further login. -/
structure Tightens (acl' acl : Acl) (now' now : Int) (s' s d : Subject) : Prop where
  denies : ∀ rule ∈ acl.selectedBy .deny s d, rule ∈ acl'.selectedBy .deny s' d
  allows : ∀ rule ∈ acl'.selectedBy .allow s' d, rule ∈ acl.selectedBy .allow s d
  default : acl'.implicitDefaultAllows s' d → acl.implicitDefaultAllows s d
  governed : acl'.sshGoverned s' d = acl.sshGoverned s d
  logins : ∀ user, acl'.allowsSsh now' s' d user → acl.allowsSsh now s d user

/-- A login gets through TCP 22 and, where the grant limits users, through sshd. -/
def AdmitsLogin (ingress : PeerIngress) (user : String) : Prop :=
  ingressAdmits ingress (some .tcp) (some SSH_PORT) ∧
    (ingress.sshRestricted → Passes (ingress.sshUsers, ingress.sshDenyUsers) user)

/-- A grant admits no packet, names no login and lets no session through that another
does not. -/
structure Narrower (narrow wide : PeerIngress) : Prop where
  flows : ∀ (protocol : Option AclProtocol) (port : Option Nat), (∀ n ∈ port, n ≤ 65535) →
    ingressAdmits narrow protocol port → ingressAdmits wide protocol port
  logins : ∀ user, Passes (narrow.sshUsers, narrow.sshDenyUsers) user →
    Passes (wide.sshUsers, wide.sshDenyUsers) user
  sessions : ∀ user, AdmitsLogin narrow user → AdmitsLogin wide user

/-- The grant for everybody is the one under which every login is allowed. -/
theorem sshGrant_everybody :
    acl.sshGrant now s d = (["*"], []) ↔ ∀ user, acl.allowsSsh now s d user := by
  constructor
  · intro hgrant user
    rw [← passes_iff, hgrant]
    exact ⟨List.cons_ne_nil _ _, fun hnot => absurd ⟨rfl, rfl⟩ hnot⟩
  · intro hall
    have hfree : ∀ user, ¬(acl.gathered now s d).Denies user :=
      fun user => ((allowsSsh_iff user).mp (hall user)).2
    have hnobody : (acl.gathered now s d).deny = [] :=
      List.eq_nil_iff_forall_not_mem.mpr fun user huser => hfree user (.inr huser)
    -- `*` is not a name, so it is allowed by the star alone
    have hstar : (acl.gathered now s d).allowStar :=
      ((allowsSsh_iff "*").mp (hall "*")).1.resolve_right fun hname =>
        (gathered_names (.inl hname)).1 rfl
    rcases sshGrant_cases acl now s d with ⟨hdenied, -⟩ | ⟨-, -, hgrant⟩ | ⟨-, hnot, -⟩
    · exact absurd (.inl hdenied) (hfree "*")
    · rw [hgrant, hnobody]
    · rw [hstar] at hnot
      cases hnot

/-- A rule that allows a login decides TCP 22 for the pair. -/
theorem sshGoverned_of_allowsSsh {user : String} (h : acl.allowsSsh now s d user) :
    acl.sshGoverned s d := by
  obtain ⟨rule, hrule, haction, hmatch⟩ := (gathered_allows user).mp ((allowsSsh_iff user).mp h).1
  refine List.any_eq_true.mpr ⟨rule, hrule, ?_⟩
  simp only [sshRuleMatches, sshSubjectsMatch, Bool.and_eq_true] at hmatch
  simp [hmatch.1.1.2, haction]

namespace Tightens

variable (h : Tightens acl' acl now' now s' s d)

include h

theorem selects_deny {p : AclRule → Bool}
    (hdeny : acl.Selects .deny s d p) : acl'.Selects .deny s' d p := by
  obtain ⟨rule, hrule, hp⟩ := hdeny
  exact ⟨rule, h.denies rule hrule, hp⟩

theorem selects_allow {p : AclRule → Bool}
    (hallow : acl'.Selects .allow s' d p) : acl.Selects .allow s d p := by
  obtain ⟨rule, hrule, hp⟩ := hallow
  exact ⟨rule, h.allows rule hrule, hp⟩

theorem granted {protocol : AclProtocol} {port : Nat} (hgranted : acl'.Granted s' d protocol port) :
    acl.Granted s d protocol port :=
  hgranted.imp h.default h.selects_allow

theorem opensAll (hopens : acl'.opensAll s' d) : acl.opensAll s d := by
  refine Bool.or_eq_true_iff.mpr ((Bool.or_eq_true_iff.mp hopens).imp h.default fun hany => ?_)
  obtain ⟨rule, hrule, hunrestricted⟩ := List.any_eq_true.mp hany
  exact List.any_eq_true.mpr ⟨rule, h.allows rule hrule, hunrestricted⟩

theorem closesAll (hcloses : acl.closesAll s d) : acl'.closesAll s' d := by
  obtain ⟨rule, hrule, hunrestricted⟩ := List.any_eq_true.mp hcloses
  exact List.any_eq_true.mpr ⟨rule, h.denies rule hrule, hunrestricted⟩

theorem sshOpen {sshUsersEnforced : Bool} (hopen : acl'.sshOpen now' s' d sshUsersEnforced) :
    acl.sshOpen now s d sshUsersEnforced := by
  cases sshUsersEnforced with
  | true =>
    obtain ⟨user, huser⟩ := sshGrant_named.mp (sshOpen_enforced.mp hopen)
    exact sshOpen_enforced.mpr (sshGrant_named.mpr ⟨user, h.logins user huser⟩)
  | false =>
    have hall := sshGrant_everybody.mp (sshOpen_unenforced.mp hopen)
    exact sshOpen_unenforced.mpr (sshGrant_everybody.mpr fun user => h.logins user (hall user))

end Tightens

/-! ## What a grant admits, once more

Port 0 and a question without a port are the cases the comparison with the evaluator
leaves out. -/

theorem mem_allowed {t : String} (hall : ¬acl.opensAll s d) :
    t ∈ (acl.allowed s d).specs protocol ↔
      ∃ rule ∈ acl.selectedBy .allow s d, t ∈ rule.names protocol := by
  rw [allowed, if_neg hall, foldl_adds (P := fun acc : Services => t ∈ acc.specs protocol)
    (Q := fun rule => t ∈ rule.names protocol) fun acc rule => by
      rw [collectServiceSpecs_specs, mem_extendText]]
  cases protocol <;> simp [Services.specs]

/-- No specification covers port 0, so only the short cut `all` admits it. -/
theorem port0_admits_iff (hprotocol : protocol ≠ .icmp) (sshUsersEnforced : Bool) :
    ingressAdmits (acl.peerIngressFor now s d sshUsersEnforced) (some protocol) (some 0) ↔
      acl.closesAll s d = false ∧ acl.opensAll s d := by
  unfold peerIngressFor ingressAdmits
  cases protocol with
  | icmp => exact absurd rfl hprotocol
  | tcp | udp =>
    cases acl.closesAll s d <;> simp [deniesPort, coversPort, specsCover, specCovers_zero]

variable (sshUsersEnforced : Bool) (user : String)

theorem udp_portless_iff :
    ingressAdmits (acl.peerIngressFor now s d sshUsersEnforced) (some .udp) none ↔
      acl.closesAll s d = false ∧
        (acl.opensAll s d ∨ (acl.allowed s d).specs .udp ≠ []) := by
  unfold peerIngressFor ingressAdmits
  cases acl.closesAll s d <;> simp [deniesPort, coversPort, Services.specs]

theorem openPort22_eq_nil {denyTcp tcp : List String} :
    openPort22 denyTcp tcp = [] ↔ tcp = [] ∧ specsCover denyTcp SSH_PORT := by
  unfold openPort22
  cases hdenied : specsCover denyTcp SSH_PORT
  · cases hcovers : specsCover tcp SSH_PORT
    · have hmem : toString SSH_PORT ∈ insertText (toString SSH_PORT) tcp :=
        mem_insertText.mpr (.inl rfl)
      simpa using List.ne_nil_of_mem hmem
    · have hsome : tcp ≠ [] := by
        rintro rfl
        cases hcovers
      simp [hsome]
  · simp

theorem tcp_portless_iff :
    ingressAdmits (acl.peerIngressFor now s d sshUsersEnforced) (some .tcp) none ↔
      acl.closesAll s d = false ∧ (acl.opensAll s d ∨ (acl.allowed s d).specs .tcp ≠ [] ∨
        acl.sshOpen now s d sshUsersEnforced ∧ ¬acl.Denied s d .tcp SSH_PORT) := by
  have hdenied : specsCover ((acl.denied s d).specs .tcp) SSH_PORT ↔
      acl.Denied s d .tcp SSH_PORT := denied_covers (by decide) (by decide) (by decide)
  rw [← hdenied]
  unfold peerIngressFor ingressAdmits
  cases acl.closesAll s d
  · cases acl.opensAll s d
    · cases acl.sshOpen now s d sshUsersEnforced
      · simp [deniesPort, coversPort, Services.specs]
      · simp [deniesPort, coversPort, Services.specs, openPort22_eq_nil, imp_iff_not_or]
    · simp [deniesPort]
  · simp [deniesPort, coversPort]

theorem passes_compiled_iff :
    Passes ((acl.peerIngressFor now s d sshUsersEnforced).sshUsers,
        (acl.peerIngressFor now s d sshUsersEnforced).sshDenyUsers) user ↔
      acl.allowsSsh now s d user := by
  obtain ⟨husers, hdenied⟩ := peerIngressFor_ssh acl now s d sshUsersEnforced
  rw [husers, hdenied]
  exact passes_iff user

/-- Where SSH rules decide, a session needs an open TCP 22 and an allowed login; elsewhere
the open port is enough. -/
theorem admitsLogin_iff :
    AdmitsLogin (acl.peerIngressFor now s d sshUsersEnforced) user ↔
      ingressAdmits (acl.peerIngressFor now s d sshUsersEnforced) (some .tcp) (some SSH_PORT) =
          true ∧
        (acl.sshGoverned s d → acl.allowsSsh now s d user) := by
  unfold AdmitsLogin
  rw [passes_compiled_iff, sshRestricted_iff]
  refine and_congr_right fun hadmits => ?_
  constructor
  · intro hlimits hgoverned
    by_cases hall : acl.sshGrant now s d = (["*"], [])
    · exact sshGrant_everybody.mp hall user
    · have hopen := ((ssh_admits_iff hgoverned sshUsersEnforced).mp hadmits).2
      have hnamed : (acl.sshGrant now s d).1 ≠ [] := by
        intro hnone
        simp [sshOpen, hnone] at hopen
      exact hlimits ⟨hnamed, fun heq => hall (Prod.ext heq.1 heq.2)⟩
  · rintro hlogin ⟨hnamed, -⟩
    obtain ⟨other, hother⟩ := sshGrant_named.mp hnamed
    exact hlogin (sshGoverned_of_allowsSsh hother)

namespace Tightens

variable {sshUsersEnforced : Bool} (h : Tightens acl' acl now' now s' s d) {port : Option Nat}

include h

theorem opened (hsome : (acl'.allowed s' d).specs protocol ≠ []) :
    acl.opensAll s d ∨ (acl.allowed s d).specs protocol ≠ [] := by
  refine or_iff_not_imp_left.mpr fun hall => ?_
  have hall' : ¬acl'.opensAll s' d := fun hopens => hall (h.opensAll hopens)
  obtain ⟨t, ht⟩ := List.exists_mem_of_ne_nil _ hsome
  obtain ⟨rule, hrule, hspec⟩ := (mem_allowed hall').mp ht
  exact List.ne_nil_of_mem ((mem_allowed hall).mpr ⟨rule, h.allows rule hrule, hspec⟩)

theorem not_closesAll (hopen : acl'.closesAll s' d = false) : acl.closesAll s d = false :=
  Bool.eq_false_iff.mpr fun hcloses => Bool.eq_false_iff.mp hopen (h.closesAll hcloses)

theorem icmp
    (hadmits : ingressAdmits (acl'.peerIngressFor now' s' d sshUsersEnforced) (some .icmp) port =
      true) :
    ingressAdmits (acl.peerIngressFor now s d sshUsersEnforced) (some .icmp) port := by
  rw [icmp_admits_iff] at hadmits ⊢
  exact ⟨fun hdeny => hadmits.1 (h.selects_deny hdeny), hadmits.2.imp h.default h.selects_allow⟩

theorem udp (hport : ∀ n ∈ port, n ≤ 65535)
    (hadmits : ingressAdmits (acl'.peerIngressFor now' s' d sshUsersEnforced) (some .udp) port) :
    ingressAdmits (acl.peerIngressFor now s d sshUsersEnforced) (some .udp) port := by
  match port with
  | none =>
    rw [udp_portless_iff] at hadmits ⊢
    exact ⟨h.not_closesAll hadmits.1, hadmits.2.elim (fun hall => .inl (h.opensAll hall)) h.opened⟩
  | some 0 =>
    rw [port0_admits_iff (by decide)] at hadmits ⊢
    exact ⟨h.not_closesAll hadmits.1, h.opensAll hadmits.2⟩
  | some (n + 1) =>
    have hhigh := hport (n + 1) rfl
    rw [udp_admits_iff (by omega) hhigh] at hadmits ⊢
    exact ⟨fun hdenied => hadmits.1 (h.selects_deny hdenied), h.granted hadmits.2⟩

theorem tcp (hport : ∀ n ∈ port, n ≤ 65535)
    (hadmits : ingressAdmits (acl'.peerIngressFor now' s' d sshUsersEnforced) (some .tcp) port) :
    ingressAdmits (acl.peerIngressFor now s d sshUsersEnforced) (some .tcp) port := by
  match port with
  | none =>
    rw [tcp_portless_iff] at hadmits ⊢
    refine ⟨h.not_closesAll hadmits.1, ?_⟩
    rcases hadmits.2 with hall | hsome | ⟨hopen, hfree⟩
    · exact .inl (h.opensAll hall)
    · exact (h.opened hsome).imp_right .inl
    · exact .inr (.inr ⟨h.sshOpen hopen, fun hdenied => hfree (h.selects_deny hdenied)⟩)
  | some 0 =>
    rw [port0_admits_iff (by decide)] at hadmits ⊢
    exact ⟨h.not_closesAll hadmits.1, h.opensAll hadmits.2⟩
  | some (n + 1) =>
    have hhigh := hport (n + 1) rfl
    rw [tcp_admits_iff (by omega) hhigh, h.governed] at hadmits
    rw [tcp_admits_iff (by omega) hhigh]
    obtain ⟨hfree, hopens⟩ := hadmits
    refine ⟨?_, hopens.imp h.granted fun hssh => ⟨h.sshOpen hssh.1, hssh.2⟩⟩
    rintro (hdenied | ⟨hgoverned, hclosed, hssh⟩)
    · exact hfree (.inl (h.selects_deny hdenied))
    · -- a port 22 closed for want of a login stays closed
      refine hfree (.inr ⟨hgoverned, Bool.eq_false_iff.mpr fun hopen => ?_, hssh⟩)
      rw [h.sshOpen hopen] at hclosed
      cases hclosed

/-- What the tighter side compiles to admits no more. -/
theorem narrower :
    Narrower (acl'.peerIngressFor now' s' d sshUsersEnforced)
      (acl.peerIngressFor now s d sshUsersEnforced) where
  flows protocol port hport hadmits := by
    match protocol with
    | some .icmp => exact h.icmp hadmits
    | some .udp => exact h.udp hport hadmits
    | some .tcp => exact h.tcp hport hadmits
    | none =>
      -- a question without a protocol is answered by the three protocols
      have hsplit : ∀ ingress : PeerIngress, ingressAdmits ingress none port ↔
          (ingressAdmits ingress (some .tcp) port ∨
            ingressAdmits ingress (some .udp) port) ∨
          port.isNone ∧ ingressAdmits ingress (some .icmp) port := by
        simp [ingressAdmits]
      rw [hsplit] at hadmits ⊢
      exact hadmits.imp (Or.imp (h.tcp hport) (h.udp hport)) (And.imp_right h.icmp)
  logins user hpasses := by
    rw [passes_compiled_iff] at hpasses ⊢
    exact h.logins user hpasses
  sessions user hsession := by
    rw [admitsLogin_iff] at hsession ⊢
    rw [h.governed] at hsession
    refine ⟨h.tcp ?_ hsession.1, fun hgoverned => h.logins user (hsession.2 hgoverned)⟩
    decide

end Tightens

/-! ## Changes that tighten -/

section Insert

variable {before : List AclRule} {rule other : AclRule} {action : Action}
  (hrules : acl.rules = before ++ after)

include hrules

/-- A document with one rule more, at any position, selects what it selected. -/
theorem selectedBy_insert (hother : other ∈ acl.selectedBy action s d) :
    other ∈ { acl with rules := before ++ rule :: after }.selectedBy action s d := by
  rw [mem_selectedBy, hrules, List.mem_append] at hother
  refine mem_selectedBy.mpr ⟨⟨List.mem_append.mpr ?_, hother.1.2⟩, hother.2⟩
  exact hother.1.1.imp_right (List.mem_cons_of_mem rule)

/-- It selects nothing more for another action. -/
theorem selectedBy_of_insert (haction : rule.action ≠ action)
    (hother : other ∈ { acl with rules := before ++ rule :: after }.selectedBy action s d) :
    other ∈ acl.selectedBy action s d := by
  obtain ⟨⟨hmem, hmatches⟩, hselected⟩ := mem_selectedBy.mp hother
  refine mem_selectedBy.mpr ⟨⟨?_, hmatches⟩, hselected⟩
  have hne : other ≠ rule := by
    rintro rfl
    exact haction hselected
  rw [hrules, List.mem_append]
  exact (List.mem_append.mp hmem).imp_right fun hmem => List.mem_of_ne_of_mem hne hmem

/-- A further deny rule tightens. -/
theorem tightens_deny (hdeny : rule.action = .deny) :
    Tightens { acl with rules := before ++ rule :: after } acl now now s s d where
  denies _ := selectedBy_insert hrules
  allows _ := selectedBy_of_insert hrules (by simp [hdeny])
  default := id
  governed := rfl
  logins _ := id

/-- A document tightens the one with a further allow rule. -/
theorem tightens_allow (hallow : rule.action = .allow) :
    Tightens acl { acl with rules := before ++ rule :: after } now now s s d where
  denies _ := selectedBy_of_insert hrules (by simp [hallow])
  allows _ := selectedBy_insert hrules
  default := id
  governed := rfl
  logins _ := id

end Insert

theorem saturatingSub_mono {issued : Int} (hlater : now ≤ now') :
    saturatingSub now issued ≤ saturatingSub now' issued := by
  unfold saturatingSub
  omega

section Source

variable {passed : List String} (hpassed : ∀ name ∈ passed, name ∈ s.passedPosture)

include hpassed

theorem postureSatisfied_fewer {required : List String}
    (h : postureSatisfied required { s with passedPosture := passed } = true) :
    postureSatisfied required s := by
  simp only [postureSatisfied, List.all_eq_true, List.contains_iff_mem] at h ⊢
  exact fun name hname => hpassed name (h name hname)

theorem sshSourceEligible_later (hlater : now ≤ now') {rule : AclSshRule}
    (h : sshSourceEligible now' rule { s with passedPosture := passed } = true) :
    sshSourceEligible now rule s := by
  unfold sshSourceEligible at h ⊢
  rw [Bool.and_eq_true] at h ⊢
  refine ⟨postureSatisfied_fewer hpassed h.1, ?_⟩
  have hage := h.2
  cases hissued : s.authenticatedAt with
  | none =>
    simp only [hissued] at hage
    exact hage
  | some issued =>
    simp only [hissued, Bool.or_eq_true, decide_eq_true_eq] at hage ⊢
    exact hage.imp_right (saturatingSub_mono hlater).trans

/-- Fewer passed checks and a later time tighten an accepted document: its deny rules ask
for neither. -/
theorem tightens_source {accepted : Int} (hvalid : acl.validate accepted = .ok ())
    (hlater : now ≤ now') :
    Tightens acl acl now' now { s with passedPosture := passed } s d where
  denies rule hrule := by
    obtain ⟨⟨hmem, hmatches⟩, haction⟩ := mem_selectedBy.mp hrule
    refine mem_selectedBy.mpr ⟨⟨hmem, ?_⟩, haction⟩
    have hnone := validate_denyPosture hvalid hmem haction
    unfold ruleMatches at hmatches ⊢
    rw [hnone] at hmatches ⊢
    exact hmatches
  allows rule hrule := by
    obtain ⟨⟨hmem, hmatches⟩, haction⟩ := mem_selectedBy.mp hrule
    refine mem_selectedBy.mpr ⟨⟨hmem, ?_⟩, haction⟩
    unfold ruleMatches at hmatches ⊢
    simp only [Bool.and_eq_true] at hmatches ⊢
    obtain ⟨⟨⟨⟨⟨hsource, hposture⟩, hhost⟩, hdestination⟩, hports⟩, hprotocols⟩ := hmatches
    exact ⟨⟨⟨⟨⟨hsource, postureSatisfied_fewer hpassed hposture⟩, hhost⟩, hdestination⟩, hports⟩,
      hprotocols⟩
  default := id
  governed := rfl
  logins user huser := by
    rw [allowsSsh_iff, gathered_allows, gathered_denies] at huser ⊢
    obtain ⟨⟨rule, hrule, haction, hmatches⟩, hfree⟩ := huser
    simp only [sshRuleMatches, Bool.and_eq_true] at hmatches
    refine ⟨⟨rule, hrule, haction, ?_⟩, ?_⟩
    · simp only [sshRuleMatches, Bool.and_eq_true]
      exact ⟨⟨hmatches.1.1, sshSourceEligible_later hpassed hlater hmatches.1.2⟩, hmatches.2⟩
    · rintro ⟨deny, hdeny, haction, hdenies⟩
      refine hfree ⟨deny, hdeny, haction, ?_⟩
      simp only [sshRuleMatches, Bool.and_eq_true] at hdenies ⊢
      refine ⟨⟨hdenies.1.1, ?_⟩, hdenies.2⟩
      simp [sshSourceEligible, validate_sshDenyPosture hvalid hdeny haction, haction,
        postureSatisfied]

end Source

/-- Compiled policy is monotone, for every accepted document, pair of devices and SSH
capability.  The order of the rules does not matter; a further deny rule, at any position,
narrows the grant and a further allow rule widens it; and a source that passes fewer posture
checks, at a later time, gets a narrower one. -/
theorem compiled_policy_monotone (acl : Acl) (accepted now : Int) (s d : Subject)
    (sshUsersEnforced : Bool) (hvalid : acl.validate accepted = .ok ()) :
    (∀ (rules : List AclRule) (ssh : List AclSshRule), rules.Perm acl.rules → ssh.Perm acl.ssh →
      { acl with rules := rules, ssh := ssh }.peerIngressFor now s d sshUsersEnforced =
        acl.peerIngressFor now s d sshUsersEnforced) ∧
    (∀ (before after : List AclRule) (rule : AclRule), acl.rules = before ++ after →
      let inserted := { acl with rules := before ++ rule :: after }
      (rule.action = .deny → Narrower (inserted.peerIngressFor now s d sshUsersEnforced)
        (acl.peerIngressFor now s d sshUsersEnforced)) ∧
      (rule.action = .allow → Narrower (acl.peerIngressFor now s d sshUsersEnforced)
        (inserted.peerIngressFor now s d sshUsersEnforced))) ∧
    (∀ (passed : List String) (later : Int), (∀ name ∈ passed, name ∈ s.passedPosture) →
      now ≤ later →
      Narrower (acl.peerIngressFor later { s with passedPosture := passed } d sshUsersEnforced)
        (acl.peerIngressFor now s d sshUsersEnforced)) := by
  refine ⟨?_, ?_, ?_⟩
  · intro rules ssh hrules hssh
    exact peerIngressFor_reorder (fun _ => hrules.mem_iff) (fun _ => hssh.mem_iff) sshUsersEnforced
  · intro before after rule hrules
    exact ⟨fun hdeny => (tightens_deny hrules hdeny).narrower,
      fun hallow => (tightens_allow hrules hallow).narrower⟩
  · intro passed later hpassed hlater
    exact (tightens_source hpassed hvalid hlater).narrower

/-- Offices with a patched system reach the web ports of stores, and log in there for an hour
after authenticating. -/
def patchedAcl : Acl where
  defaults := .deny
  rules := [{ action := .allow, srcTags := [.office], dstTags := [.store], dstPorts := ["443"],
              protocols := [.tcp], posture := ["patched"] }]
  ssh := [{ action := .check, srcTags := [.office], dstTags := [.store], users := ["ops"],
            checkPeriodSecs := some 3600, posture := ["patched"] }]

/-- Two hours later, and without the check, an office gets no more than it had. -/
theorem patched_office_narrows :
    patchedAcl.validate 0 = .ok () ∧
      Narrower
        (patchedAcl.peerIngressFor 7200
          { tags := [.office], passedPosture := [], authenticatedAt := some 0 }
          { tags := [.store] } true)
        (patchedAcl.peerIngressFor 0
          { tags := [.office], passedPosture := ["patched"], authenticatedAt := some 0 }
          { tags := [.store] } true) := by
  have hvalid : patchedAcl.validate 0 = .ok () := by decide
  exact ⟨hvalid, (compiled_policy_monotone patchedAcl 0 0
    { tags := [.office], passedPosture := ["patched"], authenticatedAt := some 0 }
    { tags := [.store] } true hvalid).2.2 [] 7200 (by decide) (by decide)⟩

end Acl

end BlakTail.Access
