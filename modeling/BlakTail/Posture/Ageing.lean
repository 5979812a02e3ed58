import BlakTail.Foundation.Steady
import BlakTail.Posture.Evaluate

/-!
# How a Result Ages

With the device's facts fixed, the result of a check depends on the clock alone.  Every
limit but the credential's own expiry is inclusive: a result holds in the second that
`evaluate` gives as its lapse, and fails one second later.
-/

namespace BlakTail.Posture

open Foundation Access

/-! ## Limits -/

/-- A time the clock of a coordinator may have read. -/
def Dated (t : Int) : Prop := 0 ≤ t ∧ t < 2 ^ 62

theorem saturatingSub_le_iff {max : Int}
    {start : Int} (hstart : Dated start) (hmax : Dated max) (now : Int) :
    saturatingSub now start ≤ max ↔ now ≤ addI64 start max := by
  have hadd : addI64 start max = start + max := by
    unfold addI64
    rw [BitVec.toInt_ofInt]
    obtain ⟨hstart, hstart'⟩ := hstart
    obtain ⟨hmax, hmax'⟩ := hmax
    exact Int.bmod_eq_of_le (by omega) (by omega)
  obtain ⟨hmax, hmax'⟩ := hmax
  unfold saturatingSub
  omega

theorem lt_saturatingSub_iff {max : Int}
    {start : Int} (hstart : Dated start) (hmax : Dated max) (now : Int) :
    max < saturatingSub now start ↔ addI64 start max < now := by
  rw [← not_le, saturatingSub_le_iff hstart hmax now, not_le]

theorem validAge_dated {age : Int} (h : validAge age) : Dated age := by
  simp only [validAge, Bool.and_eq_true, decide_eq_true_eq] at h
  unfold Dated
  omega

theorem validIntegrationAge_dated {age : Int} (h : validIntegrationAge age) : Dated age := by
  simp only [validIntegrationAge, Bool.and_eq_true, decide_eq_true_eq] at h
  unfold Dated
  omega

/-- The device's facts carry times a clock may have read. -/
structure NodeFacts.Dated (facts : NodeFacts) : Prop where
  issued : Posture.Dated facts.issuedAt
  reported : Posture.Dated facts.reportedAt
  synced : ∀ id fact record, facts.integrations.lookup id = some fact →
    fact.matched = .matched record → Posture.Dated record.syncedAt
  seen : ∀ id fact record seen, facts.integrations.lookup id = some fact →
    fact.matched = .matched record → record.lastSeenAt = some seen → Posture.Dated seen

theorem dated_of_bare {facts : NodeFacts} (hissued : Dated facts.issuedAt)
    (hreported : Dated facts.reportedAt) (hbare : facts.integrations = []) : facts.Dated where
  issued := hissued
  reported := hreported
  synced := by simp [hbare]
  seen := by simp [hbare]

/-! ## What an accepted definition gives -/

section Accepted

variable {check : PostureDefinition} (hcheck : check.validate = .ok ())

include hcheck

theorem validate_age {age : Int}
    (hage : age ∈ check.maxCredentialAgeSecs.toList ++ check.maxReportAgeSecs.toList) :
    Dated age := by
  have hages := allOk_eq_ok.mp hcheck (checkAll (fun age => reject (!validAge age)
    "posture ages must be 60-31536000 seconds")
    (check.maxCredentialAgeSecs.toList ++ check.maxReportAgeSecs.toList))
    (by simp [PostureDefinition.checks])
  have hvalid := failIf_eq_ok.mp (checkAll_eq_ok.mp hages age hage)
  exact validAge_dated (by simpa using hvalid)

theorem validate_credentialAge {max : Int}
    (hmax : check.maxCredentialAgeSecs = some max) : Dated max :=
  validate_age hcheck (by simp [hmax])

theorem validate_reportAge {max : Int} (hmax : check.maxReportAgeSecs = some max) : Dated max :=
  validate_age hcheck (by simp [hmax])

theorem validate_integrationAge {age : Int} {requirement : IntegrationRequirement}
    (hrequirement : check.integration = some requirement)
    (hage : age ∈ requirement.maxAgeSecs :: requirement.maxLastSeenSecs.toList) : Dated age := by
  have hall := allOk_eq_ok.mp hcheck (checkAll IntegrationRequirement.validate
    check.integration.toList) (by simp [PostureDefinition.checks])
  have hone := checkAll_eq_ok.mp hall requirement (by simp [hrequirement])
  have hvalid := failIf_eq_ok.mp (checkAll_eq_ok.mp hone age hage)
  exact validIntegrationAge_dated (by simpa using hvalid)

end Accepted

/-! ## Parts of a result -/

/-- How one part of the findings ages: met requirements stay met until a lapse it names,
failures stay, and outside the seconds `last` the lapses lie in the future. -/
structure Ageing (part : Int → Findings) (last : List Int) : Prop where
  keeps : ∀ l u, l ≤ u → (part l).failures = [] → (∀ t ∈ (part l).lapses, u < t) →
    (part u).failures = []
  fails : ∀ l u, l ≤ u → (part l).failures ≠ [] → (part u).failures ≠ []
  ahead : ∀ l, l ∉ last → ∀ t ∈ (part l).lapses, l < t

theorem ageing_empty (last : List Int) : Ageing (fun _ => {}) last :=
  ⟨fun _ _ _ h _ => h, fun _ _ _ h => h, nofun⟩

variable {last : List Int}

theorem ageing_failing {part : Int → Findings}
    (hpart : ∀ now, (part now).failures ≠ [] ∧ (part now).lapses = []) : Ageing part last where
  keeps l _ _ hmet _ := absurd hmet (hpart l).1
  fails _ u _ _ := (hpart u).1
  ahead l _ _ ht := absurd ((hpart l).2 ▸ ht) List.not_mem_nil

/-- A requirement with one limit `x`: it fails from some second on, is met before `x`, and
met in the second `x` itself only where `last` lists that second. -/
theorem ageing_limit {late : Int → Prop} [DecidablePred late] {failure met : Int → String}
    {source : String} {x : Int} (hmono : ∀ l u, l ≤ u → late l → late u)
    (hbefore : ∀ u, u < x → ¬ late u) (hlast : ∀ l, l ∉ last → ¬ late l → l < x) :
    Ageing (fun now => if late now then .failure (failure now) source
      else .met (met now) source (some x)) last := by
  constructor
  · intro l u _ hmet hlapses
    by_cases hlate : late l
    · simp [hlate, Findings.failure] at hmet
    · have hux : u < x := hlapses x (by simp [hlate, Findings.met])
      simp [hbefore u hux, Findings.met]
  · intro l u hlu hfailed
    by_cases hlate : late l
    · simp [hmono l u hlu hlate, Findings.failure]
    · simp [hlate, Findings.met] at hfailed
  · intro l hl t ht
    by_cases hlate : late l
    · simp [hlate, Findings.failure] at ht
    · have htx : t = x := by simpa [hlate, Findings.met] using ht
      exact htx ▸ hlast l hl hlate

section Parts

theorem approvedPeer_ageing {check : PostureDefinition} {facts : NodeFacts}
    (last : List Int) : Ageing (approvedPeer check facts) last := by
  cases hrequired : check.requireApprovedPeer with
  | false =>
    have heq : approvedPeer check facts = fun _ => {} := by
      funext now
      simp [approvedPeer, hrequired]
    exact heq ▸ ageing_empty last
  | true =>
    have heq : approvedPeer check facts = fun now =>
        if facts.credentialExpiresAt ≤ now then .failure "device credential has expired" COORD
        else .met "device is active with an unexpired credential" COORD
          (some facts.credentialExpiresAt) := by
      funext now
      simp [approvedPeer, hrequired]
    rw [heq]
    -- The expiry itself is exclusive, so no second has to be listed.
    exact ageing_limit (fun l u hlu h => le_trans h hlu) (fun u h => not_le.mpr h)
      (fun l _ h => not_le.mp h)

/-- The last second of an inclusive age limit. -/
def ageLimit (start : Int) (max : Option Int) : List Int := max.toList.map (addI64 start)

theorem credentialAge_ageing {check : PostureDefinition} {facts : NodeFacts}
    (hcheck : check.validate = .ok ()) (hfacts : facts.Dated)
    (hlast : ageLimit facts.issuedAt check.maxCredentialAgeSecs ⊆ last) :
    Ageing (credentialAge check facts) last := by
  cases hmax : check.maxCredentialAgeSecs with
  | none =>
    have heq : credentialAge check facts = fun _ => {} := by
      funext now
      simp [credentialAge, hmax]
    exact heq ▸ ageing_empty last
  | some max =>
    -- The limit is inclusive: the credential is too old from the next second on.
    have hover := lt_saturatingSub_iff hfacts.issued (validate_credentialAge hcheck hmax)
    have hmem : addI64 facts.issuedAt max ∈ last := hlast (by simp [ageLimit, hmax])
    unfold credentialAge
    simp only [hmax]
    refine ageing_limit (fun l u hlu h => ?_) (fun u h => ?_) (fun l hl h => ?_)
    · rw [hover] at h ⊢
      exact lt_of_lt_of_le h hlu
    · rw [hover]
      exact not_lt.mpr h.le
    · rw [hover, not_lt] at h
      exact lt_of_le_of_ne h fun heq => hl (heq ▸ hmem)

end Parts

/-! ## The provider's signal -/

section Signal

variable {requirement : IntegrationRequirement} {fact : IntegrationFact} {record : ProviderRecord}
  {now : Int}

/-- The last seconds in which a record is fresh enough for a requirement. -/
def recordLimits (requirement : IntegrationRequirement) (record : ProviderRecord) : List Int :=
  addI64 record.syncedAt requirement.maxAgeSecs ::
    match requirement.maxLastSeenSecs, record.lastSeenAt with
    | some max, some seen => [addI64 seen max]
    | _, _ => []

/-- Times and ages that a requirement compares. -/
structure RecordDated (requirement : IntegrationRequirement) (record : ProviderRecord) : Prop where
  synced : Dated record.syncedAt
  seen : ∀ seen, record.lastSeenAt = some seen → Dated seen
  ages : ∀ age ∈ requirement.maxAgeSecs :: requirement.maxLastSeenSecs.toList, Dated age

/-- The record is past the age the requirement allows. -/
def Outdated (requirement : IntegrationRequirement) (record : ProviderRecord) (now : Int) : Prop :=
  addI64 record.syncedAt requirement.maxAgeSecs < now

theorem assessRecord_outdated (fact : IntegrationFact) (hdated : RecordDated requirement record)
    (hold : Outdated requirement record now) :
    ((assessRecord requirement fact record now).passed ↔
      fact.outageSince.isSome ∧ requirement.onOutage = .pass) ∧
    (assessRecord requirement fact record now).lapse = none := by
  have hage := (lt_saturatingSub_iff hdated.synced
    (hdated.ages _ List.mem_cons_self) now).mpr hold
  unfold assessRecord
  split <;> simp_all [failed]

/-- The provider has seen the device recently enough. -/
def SeenLately (requirement : IntegrationRequirement) (record : ProviderRecord)
    (now : Int) : Prop :=
  match requirement.maxLastSeenSecs, record.lastSeenAt with
  | none, _ => True
  | some max, some seen => now ≤ addI64 seen max
  | some _, none => False

theorem SeenLately.earlier {l u : Int} (hlu : l ≤ u) (h : SeenLately requirement record u) :
    SeenLately requirement record l := by
  unfold SeenLately at *
  split
  · trivial
  · simp_all only
    exact le_trans hlu h
  · simp_all

theorem SeenLately.before {l u : Int} (h : SeenLately requirement record l)
    (hu : ∀ limit ∈ recordLimits requirement record, u ≤ limit) :
    SeenLately requirement record u := by
  unfold SeenLately recordLimits at *
  split
  · trivial
  · next max seen hmax hseen =>
    simp only [hmax, hseen] at hu
    exact hu (addI64 seen max) (by simp)
  · simp_all

theorem le_recordLimits (hcurrent : ¬ Outdated requirement record now)
    (hseen : SeenLately requirement record now) :
    ∀ limit ∈ recordLimits requirement record, now ≤ limit := by
  intro limit hlimit
  unfold SeenLately recordLimits at *
  rcases List.mem_cons.mp hlimit with rfl | hmem
  · exact not_lt.mp hcurrent
  · split at hmem <;> simp_all

theorem assessRecord_current (fact : IntegrationFact) (hdated : RecordDated requirement record)
    (hcurrent : ¬ Outdated requirement record now) :
    ((assessRecord requirement fact record now).passed ↔
      SeenLately requirement record now) ∧
    ((assessRecord requirement fact record now).passed →
      ∃ t, (assessRecord requirement fact record now).lapse = some t ∧
        ∀ u, u < t ↔ ∀ limit ∈ recordLimits requirement record, u < limit) := by
  have hage := (lt_saturatingSub_iff hdated.synced
    (hdated.ages _ List.mem_cons_self) now).not.mpr hcurrent
  unfold assessRecord SeenLately recordLimits
  simp only [hage, if_false]
  cases hmax : requirement.maxLastSeenSecs with
  | none => simp
  | some max =>
    cases hseen : record.lastSeenAt with
    | none => simp [failed]
    | some seen =>
      have hlately := saturatingSub_le_iff (hdated.seen seen hseen)
        (hdated.ages max (by simp [hmax])) now
      by_cases hnow : now ≤ addI64 seen max
      · simp [hlately.mpr hnow, hnow]
      · simp [hlately.not.mpr hnow, hnow, failed]

/-- The signal of a compliant record, as a part of the findings. -/
def recordFindings (requirement : IntegrationRequirement) (fact : IntegrationFact)
    (record : ProviderRecord) (now : Int) : Findings :=
  let outcome := assessRecord requirement fact record now
  if outcome.passed then .met outcome.reason PROVIDER_SOURCE outcome.lapse
  else .failure outcome.reason PROVIDER_SOURCE

theorem recordFindings_failures :
    (recordFindings requirement fact record now).failures = [] ↔
      (assessRecord requirement fact record now).passed := by
  cases h : (assessRecord requirement fact record now).passed <;>
    simp [recordFindings, h, Findings.met, Findings.failure]

theorem recordFindings_lapses {t : Int}
    (ht : t ∈ (recordFindings requirement fact record now).lapses) :
    (assessRecord requirement fact record now).passed ∧
      (assessRecord requirement fact record now).lapse = some t := by
  cases h : (assessRecord requirement fact record now).passed <;>
    simp_all [recordFindings, Findings.met, Findings.failure]

theorem recordFindings_ageing (hdated : RecordDated requirement record)
    (hclosed : requirement.onOutage = .pass → requirement.maxLastSeenSecs = none)
    (hlast : recordLimits requirement record ⊆ last) :
    Ageing (recordFindings requirement fact record) last := by
  constructor
  · intro l u hlu hmet hlapses
    rw [recordFindings_failures] at hmet ⊢
    -- Past the record's age only an outage lets the check pass, and that does not end.
    by_cases hold : Outdated requirement record l
    · have hpass := (assessRecord_outdated fact hdated hold).1.mp hmet
      exact (assessRecord_outdated fact hdated (lt_of_lt_of_le hold hlu)).1.mpr hpass
    · obtain ⟨t, hlapse, hbefore⟩ := (assessRecord_current fact hdated hold).2 hmet
      have hut : u < t := hlapses t (by simp [recordFindings, hmet, Findings.met, hlapse])
      have hlimits := (hbefore u).mp hut
      have hcurrent : ¬ Outdated requirement record u :=
        not_lt.mpr (hlimits _ List.mem_cons_self).le
      have hseen := (assessRecord_current fact hdated hold).1.mp hmet
      exact (assessRecord_current fact hdated hcurrent).1.mpr
        (hseen.before fun limit hlimit => (hlimits limit hlimit).le)
  · intro l u hlu hfailed
    rw [ne_eq, recordFindings_failures] at hfailed ⊢
    by_cases hold : Outdated requirement record l
    · rw [(assessRecord_outdated fact hdated hold).1] at hfailed
      rwa [(assessRecord_outdated fact hdated (lt_of_lt_of_le hold hlu)).1]
    · rw [(assessRecord_current fact hdated hold).1] at hfailed
      by_cases holder : Outdated requirement record u
      · -- The device was last seen too long ago, so the check does not pass in an outage.
        rw [(assessRecord_outdated fact hdated holder).1]
        rintro ⟨-, hopen⟩
        simp [SeenLately, hclosed hopen] at hfailed
      · rw [(assessRecord_current fact hdated holder).1]
        exact fun hseen => hfailed (hseen.earlier hlu)
  · intro l hl t ht
    obtain ⟨hpassed, hlapse⟩ := recordFindings_lapses ht
    -- Only a current record names a lapse.
    have hcurrent : ¬ Outdated requirement record l := fun hold => by
      simp [(assessRecord_outdated fact hdated hold).2] at hlapse
    obtain ⟨t', hlapse', hbefore⟩ := (assessRecord_current fact hdated hcurrent).2 hpassed
    cases hlapse.symm.trans hlapse'
    have hseen := (assessRecord_current fact hdated hcurrent).1.mp hpassed
    exact (hbefore l).mpr fun limit hlimit => lt_of_le_of_ne
      (le_recordLimits hcurrent hseen limit hlimit) fun heq => hl (hlast (heq ▸ hlimit))

/-- Only a matched record is ever read; everything else fails for good. -/
theorem assess_cases (requirement : IntegrationRequirement) (found : Option IntegrationFact) :
    (∀ now, (assess requirement found now).passed = false) ∨
      ∃ fact record, found = some fact ∧ fact.matched = .matched record ∧
        assess requirement found = assessRecord requirement fact record := by
  cases found with
  | none => exact .inl fun _ => rfl
  | some fact =>
    unfold assess
    by_cases henabled : fact.enabled
    · simp only [henabled, Bool.not_true, Bool.false_eq_true, if_false]
      cases hmatched : fact.matched with
      | matched record =>
        by_cases hcompliant : record.compliant = some true
        · exact .inr ⟨fact, record, rfl, hmatched, by funext now; simp [hcompliant]⟩
        · exact .inl fun _ => by simp [hcompliant, failed]
      | _ => exact .inl fun _ => rfl
    · exact .inl fun _ => by simp [henabled, failed]

end Signal

/-- The last seconds in which the provider's signal may pass. -/
def signalLimits (facts : NodeFacts) (requirement : IntegrationRequirement) : List Int :=
  match facts.integrations.lookup requirement.integrationId with
  | some fact =>
    match fact.matched with
    | .matched record => recordLimits requirement record
    | _ => []
  | none => []

section Result

variable {check : PostureDefinition} {facts : NodeFacts} {limits : List Int} {l u : Int}

section

variable (hcheck : check.validate = .ok ())
include hcheck

/-- No signal is required, it never passes, or it is that of one record. -/
theorem integrationSignal_cases (hfacts : facts.Dated) :
    (integrationSignal check facts = fun _ => {}) ∨
    (∀ now, (integrationSignal check facts now).failures ≠ [] ∧
      (integrationSignal check facts now).lapses = []) ∨
    ∃ requirement fact record, check.integration = some requirement ∧
      integrationSignal check facts = recordFindings requirement fact record ∧
      RecordDated requirement record ∧
      check.integration.toList.flatMap (signalLimits facts) = recordLimits requirement record := by
  cases hrequirement : check.integration with
  | none => exact .inl (funext fun now => by simp [integrationSignal, hrequirement])
  | some requirement =>
    rcases assess_cases requirement (facts.integrations.lookup requirement.integrationId) with
      hnever | ⟨fact, record, hfound, hmatched, hassess⟩
    · exact .inr (.inl fun now => by
        simp [integrationSignal, hrequirement, hnever now, Findings.failure])
    · refine .inr (.inr ⟨requirement, fact, record, rfl, funext fun now => ?_, ?_, ?_⟩)
      · simp [integrationSignal, hrequirement, hassess, recordFindings]
      · exact
          { synced := hfacts.synced _ fact record hfound hmatched
            seen := fun seen => hfacts.seen _ fact record seen hfound hmatched
            ages := fun age hage => validate_integrationAge hcheck hrequirement hage }
      · simp [signalLimits, hfound, hmatched]

theorem integrationSignal_ageing (hfacts : facts.Dated)
    (hclosed : ∀ requirement, check.integration = some requirement →
      requirement.onOutage = .pass → requirement.maxLastSeenSecs = none)
    (hlast : check.integration.toList.flatMap (signalLimits facts) ⊆ last) :
    Ageing (integrationSignal check facts) last := by
  rcases integrationSignal_cases hcheck hfacts with
    heq | hnever | ⟨requirement, fact, record, hrequirement, heq, hdated, hlimits⟩
  · exact heq ▸ ageing_empty last
  · exact ageing_failing hnever
  · rw [heq]
    exact recordFindings_ageing hdated (hclosed requirement hrequirement) (hlimits ▸ hlast)

/-! ## The inventory -/

/-- The inventory is stale past its limit, and lapses with it before. -/
theorem stale_freshness (hfacts : facts.Dated) (now : Int) :
    ((stale check facts now).isSome ↔
      ∃ limit ∈ ageLimit facts.reportedAt check.maxReportAgeSecs, limit < now) ∧
    (freshness check facts now).lapses =
      (ageLimit facts.reportedAt check.maxReportAgeSecs).filter (now ≤ ·) := by
  unfold stale freshness ageLimit
  cases hmax : check.maxReportAgeSecs with
  | none => simp
  | some max =>
    have hover := lt_saturatingSub_iff hfacts.reported (validate_reportAge hcheck hmax) now
    by_cases hold : addI64 facts.reportedAt max < now
    · simp [hover.mpr hold, hold]
    · simp [hover.not.mpr hold, not_lt.mp hold]

end

/-- Whether the inventory lets the check pass, for a given answer of `stale`. -/
def InventoryPasses (check : PostureDefinition) (facts : NodeFacts) (stale : Option String) :
    Prop :=
  (osInventory check facts stale).failures = [] ∧ (agentInventory check facts stale).failures = [] ∧
    (((osInventory check facts stale).missing = [] ∧
      (agentInventory check facts stale).missing = []) ∨
      check.onMissingData = .pass)

/-- The check reads nothing of the inventory. -/
def PostureDefinition.Unread (check : PostureDefinition) : Prop :=
  check.needsOs = false ∧ check.minAgentVersion = none

/-- A stale inventory fails nothing; it is missing wherever it is read. -/
theorem inventoryPasses_stale (reason : String) :
    InventoryPasses check facts (some reason) ↔ check.Unread ∨ check.onMissingData = .pass := by
  unfold InventoryPasses PostureDefinition.Unread osInventory agentInventory
  cases check.needsOs <;> cases check.minAgentVersion <;> simp [reported, Findings.lack]

/-! Nothing in the inventory lapses by itself. -/

theorem reported_lapses {stale value : Option String} {label : String} {lack : Findings}
    (h : reported stale value label = .error lack) : lack.lapses = [] := by
  unfold reported at h
  split at h
  · exact Except.error.inj h ▸ rfl
  · split at h
    · exact nomatch h
    · exact Except.error.inj h ▸ rfl

theorem osFamily_lapses (os : String) : (osFamily check os).lapses = [] := by
  unfold osFamily
  split_ifs <;> rfl

theorem osVersion_lapses (stale : Option String) (os : String) :
    (osVersion check facts stale os).lapses = [] := by
  unfold osVersion
  cases check.minOsVersions.lookup os with
  | none => rfl
  | some minimum =>
    cases hversion : reported stale facts.osVersion "OS version" with
    | error lack =>
      have hlack := reported_lapses hversion
      simp only [Except.toOption, Option.bind_none]
      split_ifs
      · simp [Findings.join, hlack, Findings.lack]
      · exact hlack
    | ok version =>
      simp only [Except.toOption, Option.bind_some]
      split
      · split_ifs <;> rfl
      · split_ifs <;> rfl

theorem osInventory_lapses (stale : Option String) :
    (osInventory check facts stale).lapses = [] := by
  unfold osInventory
  split_ifs
  · rfl
  · split
    · next lack hlack => exact reported_lapses hlack
    · simp [Findings.join, osFamily_lapses, osVersion_lapses]

theorem agentInventory_lapses (stale : Option String) :
    (agentInventory check facts stale).lapses = [] := by
  unfold agentInventory
  cases check.minAgentVersion with
  | none => rfl
  | some minimum =>
    simp only
    split
    · next lack hlack => exact reported_lapses hlack
    · split
      · split_ifs <;> rfl
      · rfl

/-! ## The whole result -/

/-- The last seconds of the check's inclusive limits for a device. -/
def lastSeconds (check : PostureDefinition) (facts : NodeFacts) : List Int :=
  ageLimit facts.issuedAt check.maxCredentialAgeSecs ++
    check.integration.toList.flatMap (signalLimits facts) ++
    ageLimit facts.reportedAt check.maxReportAgeSecs

/-- Waiting alone may turn a failure of the check into a pass: stale data passes where
fresh data may fail, or an outage hides that a device was last seen too long ago. -/
def PostureDefinition.agesOpen (check : PostureDefinition) : Bool :=
  (check.onMissingData = .pass && check.maxReportAgeSecs.isSome) ||
    check.integration.any fun requirement =>
      requirement.onOutage = .pass && requirement.maxLastSeenSecs.isSome

theorem evaluate_passed_iff (name : String) (version now : Int) :
    (evaluate check facts now name version).passed ↔
      (approvedPeer check facts now).failures = [] ∧ (credentialAge check facts now).failures = [] ∧
      (integrationSignal check facts now).failures = [] ∧
      InventoryPasses check facts (stale check facts now) := by
  have happroved : (approvedPeer check facts now).missing = [] := by
    unfold approvedPeer
    split_ifs <;> rfl
  have hcredential : (credentialAge check facts now).missing = [] := by
    unfold credentialAge
    cases check.maxCredentialAgeSecs with
    | none => rfl
    | some max => dsimp only; split_ifs <;> rfl
  have hsignal : (integrationSignal check facts now).missing = [] := by
    unfold integrationSignal
    cases check.integration with
    | none => rfl
    | some requirement => dsimp only; split_ifs <;> rfl
  have hfresh : (freshness check facts now).missing = [] ∧
      (freshness check facts now).failures = [] := by
    unfold freshness
    cases check.maxReportAgeSecs with
    | none => exact ⟨rfl, rfl⟩
    | some max => dsimp only; split_ifs <;> exact ⟨rfl, rfl⟩
  simp [evaluate, conclude, findings, Findings.join, InventoryPasses, happroved,
    hcredential, hsignal,
    hfresh.1, hfresh.2]
  tauto

theorem evaluate_expiresAt (name : String) (version now : Int) :
    (evaluate check facts now name version).expiresAt =
      if (evaluate check facts now name version).passed then (findings check facts now).lapses.min?
      else none := rfl

theorem evaluate_lapses (now : Int) :
    (findings check facts now).lapses =
      (approvedPeer check facts now).lapses ++ (credentialAge check facts now).lapses ++
        (integrationSignal check facts now).lapses ++ (freshness check facts now).lapses := by
  simp [findings, Findings.join, osInventory_lapses, agentInventory_lapses]

/-! ## Between two limits -/

/-- Between `l` and `u` no inclusive limit runs out. -/
def Uncrossed (limits : List Int) (l u : Int) : Prop :=
  ∀ limit ∈ limits, ¬ (l ≤ limit ∧ limit < u)

instance (limits : List Int) (l u : Int) : Decidable (Uncrossed limits l u) :=
  inferInstanceAs (Decidable (∀ limit ∈ limits, ¬ (l ≤ limit ∧ limit < u)))

theorem Uncrossed.mono {more : List Int} (h : Uncrossed more l u) (hsub : limits ⊆ more) :
    Uncrossed limits l u :=
  fun limit hlimit => h limit (hsub hlimit)

/-- A limit that does not run out is past, or ahead, at both ends. -/
theorem Uncrossed.le_iff {limit : Int} (h : Uncrossed limits l u) (hlu : l ≤ u)
    (hlimit : limit ∈ limits) : u ≤ limit ↔ l ≤ limit := by
  have hcross := h limit hlimit
  omega

section Uncrossed

variable {l u : Int} (hlu : l ≤ u)

include hlu

theorem approvedPeer_uncrossed
    (hexpiry : ¬ (l < facts.credentialExpiresAt ∧ facts.credentialExpiresAt ≤ u)) :
    (approvedPeer check facts u).failures = [] ↔ (approvedPeer check facts l).failures = [] := by
  have hsame : facts.credentialExpiresAt ≤ u ↔ facts.credentialExpiresAt ≤ l := by omega
  unfold approvedPeer
  simp only [hsame]

variable (hcheck : check.validate = .ok ()) (hfacts : facts.Dated)

include hcheck hfacts

theorem credentialAge_uncrossed
    (hlimits : Uncrossed (ageLimit facts.issuedAt check.maxCredentialAgeSecs) l u) :
    (credentialAge check facts u).failures = [] ↔ (credentialAge check facts l).failures = [] := by
  unfold credentialAge
  cases hmax : check.maxCredentialAgeSecs with
  | none => rfl
  | some max =>
    have hover := lt_saturatingSub_iff hfacts.issued (validate_credentialAge hcheck hmax)
    have hsame : u ≤ addI64 facts.issuedAt max ↔ l ≤ addI64 facts.issuedAt max :=
      hlimits.le_iff hlu (by simp [ageLimit, hmax])
    simp only [hover, ← not_le, hsame]
    split_ifs <;> simp [Findings.met, Findings.failure]

theorem integrationSignal_uncrossed
    (hlimits : Uncrossed (check.integration.toList.flatMap (signalLimits facts)) l u) :
    (integrationSignal check facts u).failures = [] ↔
      (integrationSignal check facts l).failures = [] := by
  rcases integrationSignal_cases hcheck hfacts with
    heq | hnever | ⟨requirement, fact, record, -, heq, hdated, hrecord⟩
  · rw [heq]
  · exact iff_of_false (hnever u).1 (hnever l).1
  · rw [hrecord] at hlimits
    rw [heq, recordFindings_failures, recordFindings_failures]
    -- the record's age did not run out, so it is read the same way at both times
    have hage : Outdated requirement record u ↔ Outdated requirement record l := by
      unfold Outdated
      rw [← not_le, ← not_le, hlimits.le_iff hlu List.mem_cons_self]
    by_cases hold : Outdated requirement record l
    · rw [(assessRecord_outdated fact hdated hold).1,
        (assessRecord_outdated fact hdated (hage.mpr hold)).1]
    · rw [(assessRecord_current fact hdated hold).1,
        (assessRecord_current fact hdated (hage.not.mpr hold)).1]
      refine ⟨SeenLately.earlier hlu, fun hseen => hseen.before fun limit hlimit => ?_⟩
      rw [hlimits.le_iff hlu hlimit]
      exact le_recordLimits hold hseen limit hlimit

theorem inventoryPasses_uncrossed
    (hlimits : Uncrossed (ageLimit facts.reportedAt check.maxReportAgeSecs) l u) :
    InventoryPasses check facts (stale check facts u) ↔
      InventoryPasses check facts (stale check facts l) := by
  have hsame : (stale check facts u).isSome = (stale check facts l).isSome := by
    rw [Bool.eq_iff_iff, (stale_freshness hcheck hfacts u).1, (stale_freshness hcheck hfacts l).1]
    refine exists_congr fun limit => and_congr_right fun hlimit => ?_
    rw [← not_le, ← not_le, hlimits.le_iff hlu hlimit]
  cases hu : stale check facts u with
  | none =>
    have hl : stale check facts l = none := by
      rw [hu] at hsame
      exact Option.not_isSome_iff_eq_none.mp (hsame ▸ Bool.false_ne_true)
    rw [hl]
  | some reason =>
    rw [hu] at hsame
    obtain ⟨older, hl⟩ := Option.isSome_iff_exists.mp hsame.symm
    rw [hl, inventoryPasses_stale, inventoryPasses_stale]

/-- A check keeps its result as long as neither the credential expires nor a limit of the check
runs out. -/
theorem evaluate_uncrossed
    (hexpiry : ¬ (l < facts.credentialExpiresAt ∧ facts.credentialExpiresAt ≤ u))
    (hlimits : Uncrossed (lastSeconds check facts) l u) (name : String) (version : Int) :
    (evaluate check facts u name version).passed =
      (evaluate check facts l name version).passed := by
  rw [Bool.eq_iff_iff, evaluate_passed_iff, evaluate_passed_iff, approvedPeer_uncrossed hlu hexpiry,
    credentialAge_uncrossed hlu hcheck hfacts (hlimits.mono ?_),
    integrationSignal_uncrossed hlu hcheck hfacts (hlimits.mono ?_),
    inventoryPasses_uncrossed hlu hcheck hfacts (hlimits.mono ?_)]
  · exact fun t ht => List.mem_append_right _ ht
  · exact fun t ht => List.mem_append_left _ (List.mem_append_right _ ht)
  · exact fun t ht => List.mem_append_left _ (List.mem_append_left _ ht)

end Uncrossed

section Closed

variable (hcheck : check.validate = .ok ()) (hfacts : facts.Dated)
  (hclosed : check.agesOpen = false)

include hcheck hfacts hclosed

/-- The clocked parts of a check that does not age open. -/
theorem parts_ageing :
    Ageing (approvedPeer check facts) (lastSeconds check facts) ∧
      Ageing (credentialAge check facts) (lastSeconds check facts) ∧
      Ageing (integrationSignal check facts) (lastSeconds check facts) := by
  refine ⟨approvedPeer_ageing _, credentialAge_ageing hcheck hfacts ?_,
    integrationSignal_ageing hcheck hfacts ?_ ?_⟩
  · intro t ht
    simp [lastSeconds, ht]
  · intro requirement hrequirement hopen
    have hboth := hclosed
    simp only [PostureDefinition.agesOpen, hrequirement, Bool.or_eq_false_iff] at hboth
    simpa [hopen] using hboth.2
  · intro t ht
    exact List.mem_append_left _ (List.mem_append_right _ ht)

/-- The inventory keeps its verdict while it is fresh, and again once it is stale; turning
stale makes it worse. -/
theorem inventoryPasses_ageing {l : Int} {u : Int} (hlu : l ≤ u) :
    (InventoryPasses check facts (stale check facts u) →
      InventoryPasses check facts (stale check facts l)) ∧
    ((∀ t ∈ (freshness check facts l).lapses, u < t) →
      InventoryPasses check facts (stale check facts l) →
      InventoryPasses check facts (stale check facts u)) := by
  have hlater : (stale check facts l).isSome → (stale check facts u).isSome := by
    simp only [fun now => (stale_freshness hcheck hfacts now).1]
    exact fun ⟨limit, hlimit, hlt⟩ => ⟨limit, hlimit, lt_of_lt_of_le hlt hlu⟩
  cases hl : stale check facts l with
  | some old =>
    -- Stale stays stale, and only the text of the reason changes.
    obtain ⟨older, hu⟩ := Option.isSome_iff_exists.mp (hlater (hl ▸ rfl))
    simp only [hu, inventoryPasses_stale]
    exact ⟨id, fun _ => id⟩
  | none =>
    cases hu : stale check facts u with
    | none => exact ⟨id, fun _ => id⟩
    | some reason =>
      obtain ⟨limit, hlimit, hlt⟩ := (stale_freshness hcheck hfacts u).1.mp (hu ▸ rfl)
      have hfail : check.onMissingData ≠ .pass := by
        intro hpass
        have hsome : check.maxReportAgeSecs.isSome := by
          cases hmax : check.maxReportAgeSecs with
          | none => simp [ageLimit, hmax] at hlimit
          | some max => rfl
        simp [PostureDefinition.agesOpen, hpass, hsome] at hclosed
      have hcurrent : l ≤ limit := by
        have hnone := (stale_freshness hcheck hfacts l).1.not.mp (by simp [hl])
        exact not_lt.mp fun hold => hnone ⟨limit, hlimit, hold⟩
      constructor
      · intro hpasses
        rcases (inventoryPasses_stale reason).mp hpasses with hunread | hpass
        · simp [InventoryPasses, osInventory, agentInventory, hunread.1, hunread.2]
        · exact absurd hpass hfail
      · intro hlapses
        have hmem : limit ∈ (freshness check facts l).lapses := by
          rw [(stale_freshness hcheck hfacts l).2]
          exact List.mem_filter.mpr ⟨hlimit, by simpa using hcurrent⟩
        exact absurd (hlapses limit hmem) (not_lt.mpr hlt.le)

/-- A result stays until the second that `expires_at` names; a failing one stays for good. -/
theorem evaluate_steady (name : String) (version l : Int) :
    SteadyUntil (evaluate check facts l name version).expiresAt.toList
      (fun now => (evaluate check facts now name version).passed) l := by
  intro u hlu hexpires
  obtain ⟨happroved, hcredential, hsignal⟩ := parts_ageing hcheck hfacts hclosed
  obtain ⟨hback, hforth⟩ := inventoryPasses_ageing hcheck hfacts hclosed hlu
  rw [Bool.eq_iff_iff, evaluate_passed_iff, evaluate_passed_iff]
  constructor
  · -- A failure would have stayed.
    rintro ⟨h1, h2, h3, h4⟩
    exact ⟨of_not_not fun h => happroved.fails l u hlu h h1,
      of_not_not fun h => hcredential.fails l u hlu h h2,
      of_not_not fun h => hsignal.fails l u hlu h h3, hback h4⟩
  · -- A passing result names the earliest of its lapses, so `u` is before each of them.
    intro hpasses
    have hpassed := (evaluate_passed_iff name version l).mpr hpasses
    have hlapses : ∀ t ∈ (findings check facts l).lapses, u < t := by
      refine fun t ht => lt_of_lt_min (fun d hd => hexpires d ?_) ht
      rw [evaluate_expiresAt, if_pos hpassed, hd]
      exact List.mem_singleton_self d
    simp only [evaluate_lapses, List.mem_append, or_imp, forall_and] at hlapses
    obtain ⟨h1, h2, h3, h4⟩ := hpasses
    exact ⟨happroved.keeps l u hlu h1 hlapses.1.1.1, hcredential.keeps l u hlu h2 hlapses.1.1.2,
      hsignal.keeps l u hlu h3 hlapses.1.2, hforth hlapses.2 h4⟩

/-- Outside the last valid seconds, what is said to expire expires later. -/
theorem expiresAt_ahead {l : Int}
    {name : String} {version d : Int} (hl : l ∉ lastSeconds check facts)
    (hd : (evaluate check facts l name version).expiresAt = some d) : l < d := by
  obtain ⟨happroved, hcredential, hsignal⟩ := parts_ageing hcheck hfacts hclosed
  have hmem : d ∈ (findings check facts l).lapses := by
    rw [evaluate_expiresAt] at hd
    split at hd
    · exact (List.min?_eq_some_iff.mp hd).1
    · exact nomatch hd
  rw [evaluate_lapses, (stale_freshness hcheck hfacts l).2] at hmem
  simp only [List.mem_append] at hmem
  rcases hmem with ((hmem | hmem) | hmem) | hmem
  · exact happroved.ahead l hl d hmem
  · exact hcredential.ahead l hl d hmem
  · exact hsignal.ahead l hl d hmem
  · obtain ⟨hlimit, hle⟩ := List.mem_filter.mp hmem
    refine lt_of_le_of_ne (by simpa using hle) fun heq => hl ?_
    exact heq ▸ List.mem_append_right _ hlimit

end Closed

/-- A check that ages open: a Windows laptop fails while its inventory is fresh, no deadline
is set, and it passes once the inventory is stale. -/
example :
    let check : PostureDefinition :=
      { osFamilies := ["linux"], maxReportAgeSecs := some 60, onMissingData := .pass }
    let facts : NodeFacts :=
      { id := "laptop", os := some "Windows", createdAt := 1000, credentialExpiresAt := 100000 }
    let early := evaluate check facts 1000 "os" 1
    let late := evaluate check facts 1061 "os" 1
    early.passed = false ∧ early.expiresAt = none ∧ late.passed := by
  decide

end Result

end BlakTail.Posture
