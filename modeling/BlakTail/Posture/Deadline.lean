import BlakTail.Access.Compile
import BlakTail.Posture.Ageing

/-!
# The Next Deadline

A peer-map compile loads an organisation's checks and facts once, evaluates the posture of
every device, compiles the grants of its pairs, and computes `next_deadline`: the earliest
future second at which a grant may lapse with time alone.

The compile reads the clock twice: posture is evaluated at the second the context was
loaded, SSH rules at the second they are compiled.
-/

namespace BlakTail.Posture

open Foundation Access

structure StoredCheck where
  version : Int
  definition : PostureDefinition

/-- One organisation's checks and device facts, loaded once per compile. -/
structure PostureContext where
  checks : List (String × StoredCheck)
  facts : List NodeFacts
  now : Int

/-- `referenced_checks(acl).contains_key(name)`: some rule names the check. -/
def referenced (acl : Acl) (name : String) : Bool :=
  (acl.rules.any fun rule => rule.posture.contains name) ||
    acl.ssh.any fun rule => rule.posture.contains name

def checkPeriods (acl : Acl) : List Int :=
  (acl.ssh.filter fun rule => rule.action = .check).map AclSshRule.period

namespace PostureContext

variable (ctx : PostureContext)

/-- The results of all checks for a device. -/
def assess (facts : NodeFacts) : List Assessment :=
  ctx.checks.map fun entry => evaluate entry.2.definition facts ctx.now entry.1 entry.2.version

/-- Fill in the posture and authentication facts of a device. -/
def apply (nodeId : String) (subject : Subject) : Subject :=
  match ctx.facts.find? fun facts => facts.id = nodeId with
  | none => subject
  | some facts => { subject with
      authenticatedAt := some facts.issuedAt
      passedPosture := ((ctx.assess facts).filter (·.passed)).map (·.check) }

/-- The seconds at which something may lapse for a device. -/
def times (acl : Acl) (facts : NodeFacts) : List Int :=
  (ctx.checks.filter fun entry => referenced acl entry.1).filterMap (fun entry =>
      (evaluate entry.2.definition facts ctx.now entry.1 entry.2.version).expiresAt) ++
    (checkPeriods acl).map (addI64 facts.issuedAt)

/-- The seconds in the future among them, over all devices. -/
def deadlines (acl : Acl) : List Int := (ctx.facts.flatMap (ctx.times acl)).filter (ctx.now < ·)

/-- The earliest future second at which a compiled grant may lapse with time alone. -/
def nextDeadline (acl : Acl) : Option Int := (ctx.deadlines acl).min?

end PostureContext

/-! ## An organisation whose data does not change -/

/-- Stored checks, device facts and policy.  Checks and policy were validated before they
were stored, and the facts carry times that a clock has read. -/
structure Organisation where
  checks : List (String × StoredCheck)
  facts : List NodeFacts
  acl : Acl
  checks_valid : ∀ entry ∈ checks, entry.2.definition.validate = .ok ()
  facts_dated : ∀ device ∈ facts, device.Dated
  acl_valid : ∃ stored, acl.validate stored = .ok ()

namespace Organisation

variable (org : Organisation)

def load (now : Int) : PostureContext := { checks := org.checks, facts := org.facts, now := now }

/-- The device as rules see it after a load. -/
def subject (loaded : Int) (device : NodeFacts) : Subject :=
  (org.load loaded).apply device.id
    { role := device.role, tags := device.tags, userId := device.userId }

def passed (loaded : Int) (device : NodeFacts) : List String :=
  (((org.load loaded).assess device).filter fun assessment =>
    assessment.passed && referenced org.acl assessment.check).map (·.check)

/-- For every SSH check rule, whether the device is eligible for it. -/
def eligible (loaded granted : Int) (device : NodeFacts) : List Bool :=
  (org.acl.ssh.filter fun rule => rule.action = .check).map fun rule =>
    sshSourceEligible granted rule (org.subject loaded device)

/-- What a compile found out about every device. -/
def results (loaded granted : Int) : List (List String × List Bool) :=
  org.facts.map fun device => (org.passed loaded device, org.eligible loaded granted device)

/-- The grant a compile makes for a pair of devices. -/
def ingress (loaded granted : Int) (source destination : NodeFacts) (sshUsersEnforced : Bool) :
    PeerIngress :=
  org.acl.peerIngressFor granted (org.subject loaded source) (org.subject loaded destination)
    sshUsersEnforced

/-- The last valid seconds of the inclusive limits of a device: the ages its referenced
checks allow, and the periods of SSH check rules. -/
def deviceLastSeconds (device : NodeFacts) : List Int :=
  (org.checks.filter fun entry => referenced org.acl entry.1).flatMap
      (fun entry => lastSeconds entry.2.definition device) ++
    (checkPeriods org.acl).map (addI64 device.issuedAt)

/-- The last valid seconds of all inclusive limits. -/
def lastSeconds : List Int := org.facts.flatMap org.deviceLastSeconds

/-- No referenced check may turn from failing to passing by waiting. -/
def AgesClosed : Prop :=
  ∀ entry ∈ org.checks, referenced org.acl entry.1 → entry.2.definition.agesOpen = false

instance : Decidable org.AgesClosed :=
  inferInstanceAs (Decidable (∀ entry ∈ org.checks,
    referenced org.acl entry.1 → entry.2.definition.agesOpen = false))

variable {org}

theorem mem_checkPeriods {rule : AclSshRule} (hrule : rule ∈ org.acl.ssh)
    (haction : rule.action = .check) : rule.period ∈ checkPeriods org.acl :=
  List.mem_map_of_mem (List.mem_filter.mpr ⟨hrule, by simp [haction]⟩)

/-- The period of an accepted check rule fits. -/
theorem period_dated {rule : AclSshRule} (hrule : rule ∈ org.acl.ssh)
    (haction : rule.action = .check) : Dated rule.period := by
  obtain ⟨stored, hvalid⟩ := org.acl_valid
  have hperiod := Acl.validate_checkPeriod hvalid hrule
  have hsmall : rule.checkPeriodSecs.getD DEFAULT_SSH_CHECK_PERIOD_SECS ≤ 7 * 24 * 60 * 60 := by
    cases hsecs : rule.checkPeriodSecs with
    | none => decide
    | some secs =>
      simp only [Acl.validateCheckPeriod, haction, hsecs, reject, failIf_eq_ok] at hperiod
      simpa using (Bool.or_eq_false_iff.mp hperiod).2
  have heq : rule.period = (rule.checkPeriodSecs.getD DEFAULT_SSH_CHECK_PERIOD_SECS : Nat) := by
    unfold AclSshRule.period asI64
    rw [← BitVec.ofInt_natCast, BitVec.toInt_ofInt]
    exact Int.bmod_eq_of_le (by omega) (by omega)
  unfold Dated
  omega

section Steady

variable {l : Int} (hclosed : org.AgesClosed) (hl : l ∉ org.lastSeconds) {device : NodeFacts}

theorem mem_deadlines (hdevice : device ∈ org.facts) {t : Int}
    (ht : t ∈ (org.load l).times org.acl device) (hlt : l < t) :
    t ∈ (org.load l).deadlines org.acl :=
  List.mem_filter.mpr ⟨List.mem_flatMap.mpr ⟨device, hdevice, ht⟩, decide_eq_true hlt⟩

include hl in
theorem not_lastSeconds (hdevice : device ∈ org.facts) : l ∉ org.deviceLastSeconds device :=
  fun hmem => hl (List.mem_flatMap.mpr ⟨device, hdevice, hmem⟩)

include hclosed hl in
/-- A referenced check keeps its result until the deadline. -/
theorem check_steady (hdevice : device ∈ org.facts) {entry : String × StoredCheck}
    (hentry : entry ∈ org.checks) (href : referenced org.acl entry.1) :
    SteadyUntil ((org.load l).deadlines org.acl)
      (fun now => (evaluate entry.2.definition device now entry.1 entry.2.version).passed) l := by
  have hcheck := org.checks_valid entry hentry
  have hdated := org.facts_dated device hdevice
  have hopen := hclosed entry hentry href
  have hmem : entry ∈ org.checks.filter fun entry => referenced org.acl entry.1 :=
    List.mem_filter.mpr ⟨hentry, href⟩
  refine (evaluate_steady hcheck hdated hopen entry.1 entry.2.version l).mono fun d hd => ?_
  rw [Option.mem_toList] at hd
  -- Outside the last valid seconds the expiry passes the filter of `next_deadline`.
  refine mem_deadlines hdevice
    (List.mem_append_left _ (List.mem_filterMap.mpr ⟨entry, hmem, hd⟩)) ?_
  refine expiresAt_ahead hcheck hdated hopen (fun hlast => not_lastSeconds hl hdevice ?_) hd
  exact List.mem_append_left _ (List.mem_flatMap.mpr ⟨entry, hmem, hlast⟩)

include hl in
/-- A check period keeps its answer until the deadline. -/
theorem period_steady (hdevice : device ∈ org.facts) {rule : AclSshRule}
    (hrule : rule ∈ org.acl.ssh) (haction : rule.action = .check) :
    SteadyUntil ((org.load l).deadlines org.acl)
      (fun now => decide (saturatingSub now device.issuedAt ≤ rule.period)) l := by
  have hiff := saturatingSub_le_iff (org.facts_dated device hdevice).issued
    (period_dated hrule haction)
  simp only [hiff]
  have hlimit : addI64 device.issuedAt rule.period ∈
      (checkPeriods org.acl).map (addI64 device.issuedAt) :=
    List.mem_map_of_mem (mem_checkPeriods hrule haction)
  refine steadyUntil_le ?_
  -- In the last valid second itself the deadline would be filtered out.
  rcases lt_trichotomy l (addI64 device.issuedAt rule.period) with hlt | heq | hgt
  · exact .inl (mem_deadlines hdevice (List.mem_append_right _ hlimit) hlt)
  · exact absurd (heq ▸ List.mem_append_right _ hlimit) (not_lastSeconds hl hdevice)
  · exact .inr hgt

/-- From a load at `l` on, before the deadline it computed. -/
def Within (org : Organisation) (l u : Int) : Prop :=
  l ≤ u ∧ ∀ d, (org.load l).nextDeadline org.acl = some d → u < d

theorem passed_eq (loaded : Int) (device : NodeFacts) :
    org.passed loaded device = (org.checks.filter fun entry =>
      (evaluate entry.2.definition device loaded entry.1 entry.2.version).passed &&
        referenced org.acl entry.1).map (·.1) := by
  unfold passed PostureContext.assess load
  rw [List.filter_map, List.map_map]
  rfl

include hclosed hl in
/-- A device passes the referenced checks it passed when it was loaded. -/
theorem passed_steady {u : Int} (hu : org.Within l u) (hdevice : device ∈ org.facts) :
    org.passed u device = org.passed l device := by
  have hentries : SteadyUntil ((org.load l).deadlines org.acl) (fun now =>
      org.checks.filter fun entry =>
        (evaluate entry.2.definition device now entry.1 entry.2.version).passed &&
          referenced org.acl entry.1) l := by
    refine SteadyUntil.filter fun entry hentry => ?_
    -- A check that no rule names is left out at any time, so its result does not matter.
    cases href : referenced org.acl entry.1 with
    | false => exact fun _ _ _ => by simp
    | true => exact (check_steady hclosed hl hdevice hentry href).comp (· && true)
  rw [passed_eq, passed_eq]
  exact (hentries.comp (List.map (·.1))).before_min hu.1 hu.2

end Steady

/-! ## Devices as rules see them -/

variable (loaded : Int) (device : NodeFacts)

/-- Loading changes the posture of a device and nothing a selector reads. -/
theorem selector_subject (roles : List Role) (tags : List DeviceTag) (groups : List String)
    (named : Groups) :
    selector roles tags groups (org.subject loaded device) named =
      selector roles tags groups
        { role := device.role, tags := device.tags, userId := device.userId } named := by
  unfold subject PostureContext.apply
  split <;> rfl

theorem tags_subject : (org.subject loaded device).tags = device.tags := by
  unfold subject PostureContext.apply
  split <;> rfl

theorem authenticatedAt_subject :
    (org.subject loaded device).authenticatedAt =
      (org.facts.find? fun facts => facts.id = device.id).map NodeFacts.issuedAt := by
  unfold subject PostureContext.apply load
  cases org.facts.find? fun facts => facts.id = device.id <;> rfl

/-- Of a referenced check, rules see what `passed` lists for the device's row. -/
theorem passedPosture_subject {name : String} (href : referenced org.acl name) :
    (org.subject loaded device).passedPosture.contains name =
      (org.facts.find? fun facts => facts.id = device.id).any fun facts =>
        (org.passed loaded facts).contains name := by
  unfold subject PostureContext.apply load
  cases org.facts.find? fun facts => facts.id = device.id with
  | none => rfl
  | some facts =>
    simp [PostureContext.assess, passed_eq, evaluate, conclude]
    grind

/-- Posture follows what the rows pass. -/
theorem postureSatisfied_of_passed {u v : Int}
    (hpassed : ∀ device ∈ org.facts, org.passed u device = org.passed v device)
    (device : NodeFacts) {names : List String}
    (hnames : ∀ name ∈ names, referenced org.acl name) :
    postureSatisfied names (org.subject u device) =
      postureSatisfied names (org.subject v device) := by
  have hcontains : ∀ name ∈ names, (org.subject u device).passedPosture.contains name =
      (org.subject v device).passedPosture.contains name := by
    intro name hname
    rw [passedPosture_subject u device (hnames name hname),
      passedPosture_subject v device (hnames name hname)]
    cases hfind : org.facts.find? fun facts => facts.id = device.id with
    | none => simp only [Option.any_none]
    | some facts => simp only [Option.any_some, hpassed facts (List.mem_of_find?_eq_some hfind)]
  unfold postureSatisfied
  rw [Bool.eq_iff_iff, List.all_eq_true, List.all_eq_true]
  exact forall₂_congr fun name hname => by rw [hcontains name hname]

theorem referenced_ssh {rule : AclSshRule} (hrule : rule ∈ org.acl.ssh) :
    ∀ name ∈ rule.posture, referenced org.acl name := by
  intro name hname
  simp only [referenced, Bool.or_eq_true, List.any_eq_true, List.contains_iff_mem]
  exact .inr ⟨rule, hrule, hname⟩

theorem referenced_rule {rule : AclRule} (hrule : rule ∈ org.acl.rules) :
    ∀ name ∈ rule.posture, referenced org.acl name := by
  intro name hname
  simp only [referenced, Bool.or_eq_true, List.any_eq_true, List.contains_iff_mem]
  exact .inl ⟨rule, hrule, hname⟩

/-- The posture facts of a device are those of the row with its id. -/
theorem sshSourceEligible_row {device facts : NodeFacts} (hid : device.id = facts.id)
    (loaded now : Int) (rule : AclSshRule) :
    sshSourceEligible now rule (org.subject loaded device) =
      sshSourceEligible now rule (org.subject loaded facts) := by
  unfold subject PostureContext.apply
  rw [hid]
  split <;> rfl

/-! ## A compile is right until its deadline -/

section Steady

variable {l u g : Int} (hclosed : org.AgesClosed) (hl : l ∉ org.lastSeconds) (hu : org.Within l u)
  (hg : org.Within l g)

include hclosed hl hu hg

theorem eligible_steady (device : NodeFacts) {rule : AclSshRule} (hrule : rule ∈ org.acl.ssh) :
    sshSourceEligible g rule (org.subject u device) =
      sshSourceEligible l rule (org.subject l device) := by
  have hposture := postureSatisfied_of_passed (fun _ hdevice => passed_steady hclosed hl hu hdevice)
    device (referenced_ssh hrule)
  unfold sshSourceEligible
  rw [hposture, authenticatedAt_subject, authenticatedAt_subject]
  by_cases haction : rule.action = .check
  · cases hfind : org.facts.find? fun facts => facts.id = device.id with
    | none => rfl
    | some facts =>
      have hperiod := (period_steady hl (List.mem_of_find?_eq_some hfind) hrule
        haction).before_min hg.1 hg.2
      simp only [Option.map_some, hperiod]
  · simp only [bne_iff_ne.mpr haction, Bool.true_or]

/-- What a compile found out holds until its deadline, whenever its two parts are read. -/
theorem results_steady : org.results u g = org.results l l := by
  refine List.map_congr_left fun device hdevice => Prod.ext (passed_steady hclosed hl hu hdevice) ?_
  exact List.map_congr_left fun rule hrule =>
    eligible_steady hclosed hl hu hg device (List.mem_filter.mp hrule).1

end Steady

/-! ## A compile is right while nothing expires -/

/-- Between `l` and `u` no credential expires and no inclusive limit runs out. -/
structure Quiet (org : Organisation) (l u : Int) : Prop where
  expiry : ∀ device ∈ org.facts, ¬ (l < device.credentialExpiresAt ∧ device.credentialExpiresAt ≤ u)
  limits : Uncrossed org.lastSeconds l u

instance (org : Organisation) (l u : Int) : Decidable (org.Quiet l u) :=
  decidable_of_iff ((∀ device ∈ org.facts,
      ¬ (l < device.credentialExpiresAt ∧ device.credentialExpiresAt ≤ u)) ∧
    Uncrossed org.lastSeconds l u) ⟨fun h => ⟨h.1, h.2⟩, fun h => ⟨h.expiry, h.limits⟩⟩

section Uncrossed

variable {l u : Int} (hlu : l ≤ u) (hquiet : org.Quiet l u)

include hlu hquiet

theorem passed_uncrossed {device : NodeFacts} (hdevice : device ∈ org.facts) :
    org.passed u device = org.passed l device := by
  rw [passed_eq, passed_eq]
  congr 1
  refine List.filter_congr fun entry hentry => ?_
  cases href : referenced org.acl entry.1 with
  | false => simp
  | true =>
    have hmem : entry ∈ org.checks.filter fun entry => referenced org.acl entry.1 :=
      List.mem_filter.mpr ⟨hentry, href⟩
    rw [evaluate_uncrossed hlu (org.checks_valid entry hentry) (org.facts_dated device hdevice)
      (hquiet.expiry device hdevice) (hquiet.limits.mono fun t ht => ?_)]
    exact List.mem_flatMap.mpr
      ⟨device, hdevice, List.mem_append_left _ (List.mem_flatMap.mpr ⟨entry, hmem, ht⟩)⟩

/-- What a compile found out holds while no credential expires and no limit runs out. -/
theorem results_uncrossed : org.results u u = org.results l l := by
  refine List.map_congr_left fun device hdevice =>
    Prod.ext (passed_uncrossed hlu hquiet hdevice) (List.map_congr_left fun rule hrule => ?_)
  obtain ⟨hmem, haction⟩ := List.mem_filter.mp hrule
  have hposture := postureSatisfied_of_passed
    (fun _ hdevice => passed_uncrossed hlu hquiet hdevice) device (referenced_ssh hmem)
  unfold sshSourceEligible
  rw [hposture, authenticatedAt_subject, authenticatedAt_subject]
  cases hfind : org.facts.find? fun facts => facts.id = device.id with
  | none => rfl
  | some facts =>
    have hfacts := List.mem_of_find?_eq_some hfind
    have hperiod : u ≤ addI64 facts.issuedAt rule.period ↔ l ≤ addI64 facts.issuedAt rule.period :=
      hquiet.limits.le_iff hlu <|
      List.mem_flatMap.mpr ⟨facts, hfacts, List.mem_append_right _
        (List.mem_map_of_mem (mem_checkPeriods hmem (by simpa using haction)))⟩
    have hiff := saturatingSub_le_iff (org.facts_dated facts hfacts).issued
      (period_dated hmem (by simpa using haction))
    simp only [Option.map_some, hiff, hperiod]

end Uncrossed

/-! ## Grants follow the results -/

section Grants

variable {u g v h : Int} (hresults : org.results u g = org.results v h)

include hresults

theorem passed_of_results : ∀ device ∈ org.facts, org.passed u device = org.passed v device :=
  fun device hdevice => congrArg Prod.fst (List.map_inj_left.mp hresults device hdevice)

theorem sshSourceEligible_of_results (device : NodeFacts) {rule : AclSshRule}
    (hrule : rule ∈ org.acl.ssh) :
    sshSourceEligible g rule (org.subject u device) =
      sshSourceEligible h rule (org.subject v device) := by
  have hposture := postureSatisfied_of_passed (passed_of_results hresults) device
    (referenced_ssh hrule)
  by_cases haction : rule.action = .check
  · cases hfind : org.facts.find? fun facts => facts.id = device.id with
    | none =>
      unfold sshSourceEligible
      simp only [hposture, authenticatedAt_subject, hfind, Option.map_none]
    | some facts =>
      -- The row with the device's id is in the results, with the answer for this rule.
      have hid : facts.id = device.id := by simpa using List.find?_some hfind
      have hrow := congrArg Prod.snd
        (List.map_inj_left.mp hresults facts (List.mem_of_find?_eq_some hfind))
      have hcheck := List.map_inj_left.mp hrow rule
        (List.mem_filter.mpr ⟨hrule, decide_eq_true haction⟩)
      rwa [sshSourceEligible_row hid.symm, sshSourceEligible_row hid.symm]
  · simp only [sshSourceEligible, hposture, bne_iff_ne.mpr haction, Bool.true_or]

variable (source destination : NodeFacts)

theorem matching_of_results (port : Option Nat) (protocol : Option AclProtocol)
    (host : Option String) :
    (org.acl.rules.filter fun rule => org.acl.ruleMatches rule
        (org.subject u source) (org.subject u destination) port protocol host) =
      org.acl.rules.filter fun rule => org.acl.ruleMatches rule
        (org.subject v source) (org.subject v destination) port protocol host := by
  refine List.filter_congr fun rule hrule => ?_
  have hposture := postureSatisfied_of_passed (passed_of_results hresults) source
    (referenced_rule hrule)
  simp only [Acl.ruleMatches, selector_subject, hposture]

theorem sshGrant_of_results :
    org.acl.sshGrant g (org.subject u source) (org.subject u destination) =
      org.acl.sshGrant h (org.subject v source) (org.subject v destination) := by
  have hfold : org.acl.ssh.foldl
      (org.acl.addSshRule g (org.subject u source) (org.subject u destination)) {} =
      org.acl.ssh.foldl
        (org.acl.addSshRule h (org.subject v source) (org.subject v destination)) {} := by
    refine List.foldl_ext _ _ _ fun users rule hrule => ?_
    simp only [Acl.addSshRule, Acl.sshSubjectsMatch, selector_subject,
      sshSourceEligible_of_results hresults source hrule]
  simp only [Acl.sshGrant, hfold]

/-- Two compiles with the same results make the same grants. -/
theorem ingress_of_results (sshUsersEnforced : Bool) :
    org.ingress u g source destination sshUsersEnforced =
      org.ingress v h source destination sshUsersEnforced := by
  have hselected : org.acl.selected (org.subject u source) (org.subject u destination) =
      org.acl.selected (org.subject v source) (org.subject v destination) :=
    matching_of_results hresults source destination none none none
  have hgrant := sshGrant_of_results hresults source destination
  simp only [ingress, Acl.peerIngressFor, Acl.sshOpen, Acl.closesAll, Acl.opensAll, Acl.allowed,
    Acl.denied, Acl.selectedBy, Acl.implicitDefaultAllows, Acl.sshGoverned, hselected, hgrant,
    selector_subject, tags_subject]

/-- They answer for a packet alike. -/
theorem allowsFlow_of_results (port : Option Nat) (protocol : Option AclProtocol)
    (host : Option String) :
    org.acl.allowsFlow g (org.subject u source) (org.subject u destination) port protocol host =
      org.acl.allowsFlow h (org.subject v source) (org.subject v destination) port protocol
        host := by
  have hmatching := matching_of_results hresults source destination port protocol host
  have hgrant := sshGrant_of_results hresults source destination
  simp only [Acl.allowsFlow, hmatching, hgrant, Acl.sshGoverned, Acl.implicitDefaultAllows,
    selector_subject, tags_subject]

end Grants

end Organisation

end BlakTail.Posture
