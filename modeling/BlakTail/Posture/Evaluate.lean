import BlakTail.Access.Validate

/-!
# Posture Checks

The definitions an organisation may give its posture checks, their validation, and
`evaluate`: the result of one check for one device at one second, with its reasons and
the second at which a passing result lapses.

The clock is the argument `now`.  Fields of `NodeFacts` and `IntegrationFact` that no
function here reads (names, capabilities, provider kinds, sync times of the integration)
are left out.
-/

namespace BlakTail.Posture

open Foundation Access

/-- `i64` addition, which wraps in release builds. -/
def addI64 (a b : Int) : Int := (BitVec.ofInt 64 (a + b)).toInt

/-! ## Definitions -/

/-- What a check does without the data it needs. -/
inductive MissingData where
  | fail
  | pass
  deriving DecidableEq

structure IntegrationRequirement where
  integrationId : String
  maxAgeSecs : Int := 60 * 60
  maxLastSeenSecs : Option Int := none
  onOutage : MissingData := .fail

/-- Ages an integration requirement may name. -/
def validIntegrationAge (age : Int) : Bool := 60 ≤ age && age ≤ 30 * 24 * 60 * 60

def IntegrationRequirement.validate (requirement : IntegrationRequirement) :
    Except ApiError Unit :=
  checkAll (fun age => reject (!validIntegrationAge age)
    "integration ages must be 60-2592000 seconds")
    (requirement.maxAgeSecs :: requirement.maxLastSeenSecs.toList)

structure PostureDefinition where
  description : String := ""
  minAgentVersion : Option String := none
  osFamilies : List String := []
  minOsVersions : List (String × String) := []
  maxCredentialAgeSecs : Option Int := none
  maxReportAgeSecs : Option Int := none
  requireApprovedPeer : Bool := false
  onMissingData : MissingData := .fail
  integration : Option IntegrationRequirement := none

/-- Operating systems a check may name. -/
def OS_FAMILIES : List String := ["linux", "macos", "ios", "android", "windows"]

/-- Ages a check may name. -/
def validAge (age : Int) : Bool := 60 ≤ age && age ≤ 365 * 24 * 60 * 60

/-- The text up to the first of the separators `-`, `+` and blank. -/
def versionCore (cs : List Char) : List Char := cs.takeWhile fun c => c ≠ '-' && c ≠ '+' && c ≠ ' '

/-- The numbers of a version such as `1.2.3`, `v14.2` or `0.1.0-beta`. -/
def parseVersion (value : String) : Option (List Nat) := do
  let value := Text.trimStartMatches 'v' (Text.trim value)
  let parts ← (Text.splitChars '.' (versionCore value.toList)).mapM fun part =>
    Text.parseU64 (String.ofList part)
  if !parts.isEmpty && parts.length ≤ 4 then some parts else none

/-- Compare versions number by number; missing numbers are zero. -/
def versionAtLeast (found minimum : List Nat) : Bool :=
  let len := max found.length minimum.length
  let pad := fun (v : List Nat) => v ++ List.replicate (len - v.length) 0
  pad minimum ≤ pad found

namespace PostureDefinition

variable (check : PostureDefinition)

/-- The checks of `PostureDefinition::validate`, in its order. -/
def checks : List (Except ApiError Unit) := [
  reject (200 < check.description.toList.length || check.description.toList.any Text.isControl)
    "posture description must be at most 200 printable characters",
  reject (check.minAgentVersion.isNone && check.osFamilies.isEmpty && check.minOsVersions.isEmpty &&
      check.maxCredentialAgeSecs.isNone && !check.requireApprovedPeer && check.integration.isNone)
    "posture check must set at least one requirement",
  checkAll IntegrationRequirement.validate check.integration.toList,
  checkAll (fun version => reject (parseVersion version).isNone
    "min_agent_version must look like 1.2.3") check.minAgentVersion.toList,
  checkAll (fun family => reject (!OS_FAMILIES.contains family)
      ("unknown OS family " ++ Text.debug family ++ "; use one of " ++ Text.join ", " OS_FAMILIES))
    (check.osFamilies ++ check.minOsVersions.map (·.1)),
  reject (check.minOsVersions.any fun entry => (parseVersion entry.2).isNone)
    "min_os_versions values must look like 14.2",
  checkAll (fun age => reject (!validAge age) "posture ages must be 60-31536000 seconds")
    (check.maxCredentialAgeSecs.toList ++ check.maxReportAgeSecs.toList)]

def validate : Except ApiError Unit := allOk check.checks

end PostureDefinition

/-! ## Facts -/

/-- A provider's record of a device. -/
structure ProviderRecord where
  compliant : Option Bool
  status : String
  lastSeenAt : Option Int
  syncedAt : Int
  matchedBy : String

/-- Which provider record belongs to a device. -/
inductive DeviceMatch where
  | unmatched
  | ambiguous (candidates : Nat)
  | identityChanged
  | contested
  | matched (record : ProviderRecord)

/-- One integration's signal for a device. -/
structure IntegrationFact where
  provider : String
  name : String
  enabled : Bool
  outageSince : Option Int
  matched : DeviceMatch

structure NodeFacts where
  id : String
  userId : String := ""
  role : Role := .member
  tags : List DeviceTag := []
  os : Option String := none
  osVersion : Option String := none
  agentVersion : Option String := none
  createdAt : Int
  credentialIssuedAt : Option Int := none
  credentialExpiresAt : Int
  inventoryReportedAt : Option Int := none
  integrations : List (String × IntegrationFact) := []

/-- When the credential was last issued. -/
def NodeFacts.issuedAt (facts : NodeFacts) : Int := facts.credentialIssuedAt.getD facts.createdAt

/-- When the inventory was last reported. -/
def NodeFacts.reportedAt (facts : NodeFacts) : Int := facts.inventoryReportedAt.getD facts.createdAt

/-! ## The provider's signal -/

/-- The result of an integration requirement. -/
structure Outcome where
  passed : Bool
  reason : String
  lapse : Option Int

def failed (reason : String) : Outcome := { passed := false, reason := reason, lapse := none }

/-- The part of `assess` that reads the clock: the ages of a compliant record. -/
def assessRecord (requirement : IntegrationRequirement) (fact : IntegrationFact)
    (record : ProviderRecord) (now : Int) : Outcome :=
  let age := saturatingSub now record.syncedAt
  let reports := fun (lapse : Int) => ({
    passed := true
    reason := fact.provider ++ " reports " ++ record.status ++ " (matched by " ++
      record.matchedBy ++ ", " ++ toString age ++ "s old)"
    lapse := some lapse } : Outcome)
  if requirement.maxAgeSecs < age then
    match fact.outageSince, requirement.onOutage with
    | some since, .pass => {
        passed := true
        reason := fact.provider ++ " unreachable since " ++ toString since ++
          "; last known state " ++ record.status ++ " is " ++ toString age ++
          "s old and this check fails open during outages"
        lapse := none }
    | some since, .fail =>
      failed (fact.provider ++ " unreachable since " ++ toString since ++ "; data is " ++
        toString age ++ "s old (limit " ++ toString requirement.maxAgeSecs ++
        "s) and this check fails closed")
    | none, _ =>
      failed (fact.provider ++ " data is " ++ toString age ++ "s old (limit " ++
        toString requirement.maxAgeSecs ++ "s)")
  else
    let lapse := addI64 record.syncedAt requirement.maxAgeSecs
    match requirement.maxLastSeenSecs, record.lastSeenAt with
    | none, _ => reports lapse
    | some max, some seen =>
      if saturatingSub now seen ≤ max then reports (min lapse (addI64 seen max))
      else failed (fact.provider ++ " last saw this device " ++
        toString (saturatingSub now seen) ++ "s ago (limit " ++ toString max ++ "s)")
    | some _, none => failed (fact.provider ++ " has no last-seen time for this device")

def assess (requirement : IntegrationRequirement) (fact : Option IntegrationFact) (now : Int) :
    Outcome :=
  match fact with
  | none => failed "integration is not configured in this organisation"
  | some fact =>
    if !fact.enabled then failed (fact.provider ++ " integration " ++ fact.name ++ " is disabled")
    else match fact.matched with
      | .unmatched => failed (fact.provider ++
          " has no record matching this device's serial number or MAC address")
      | .ambiguous candidates => failed (fact.provider ++ " match is ambiguous (" ++
          toString candidates ++ " candidates); ambiguous matches fail")
      | .identityChanged => failed
          ("this device reported a serial number or MAC addresses that changed since its " ++
            "first report or that another device already holds; " ++ fact.provider ++
            " signals apply once an admin approves them")
      | .contested => failed ("the " ++ fact.provider ++
          " record matching this device belongs to a device that reported these identifiers first")
      | .matched record =>
        if record.compliant ≠ some true then
          failed (fact.provider ++ " reports " ++ record.status ++ " (matched by " ++
            record.matchedBy ++ ")")
        else assessRecord requirement fact record now

/-! ## Evaluation -/

/-- A sentence about a result, and who vouches for it. -/
structure Reason where
  text : String
  source : String

/-- Reported by the device itself. -/
def AGENT : String := "agent_reported"

/-- Observed by the coordinator. -/
def COORD : String := "coordinator_observed"

/-- Reported by an integration. -/
def PROVIDER_SOURCE : String := "provider_reported"

structure Assessment where
  check : String
  version : Int
  passed : Bool
  missingData : Bool
  reasons : List Reason
  expiresAt : Option Int

/-- What evaluation gathers: three lists of reasons, and the seconds handed to `lapse`. -/
structure Findings where
  failures : List Reason := []
  missing : List Reason := []
  passes : List Reason := []
  lapses : List Int := []

namespace Findings

def failure (text source : String) : Findings := { failures := [⟨text, source⟩] }

def met (text source : String) (lapse : Option Int) : Findings :=
  { passes := [⟨text, source⟩], lapses := lapse.toList }

def lack (text : String) : Findings := { missing := [⟨text, AGENT⟩] }

/-- One finding after the other. -/
def join (parts : List Findings) : Findings where
  failures := parts.flatMap failures
  missing := parts.flatMap missing
  passes := parts.flatMap passes
  lapses := parts.flatMap lapses

end Findings

section Parts

variable (check : PostureDefinition) (facts : NodeFacts) (now : Int)

/-- The device must have an unexpired credential. -/
def approvedPeer : Findings :=
  if !check.requireApprovedPeer then {}
  else if facts.credentialExpiresAt ≤ now then .failure "device credential has expired" COORD
  else .met "device is active with an unexpired credential" COORD (some facts.credentialExpiresAt)

/-- The credential must be recent. -/
def credentialAge : Findings :=
  match check.maxCredentialAgeSecs with
  | none => {}
  | some max =>
    let age := saturatingSub now facts.issuedAt
    if max < age then
      .failure ("credential last issued " ++ toString age ++ "s ago; check allows " ++
        toString max ++ "s") COORD
    else
      .met ("credential issued " ++ toString age ++ "s ago (limit " ++ toString max ++ "s)") COORD
        (some (addI64 facts.issuedAt max))

/-- The provider must vouch for the device. -/
def integrationSignal : Findings :=
  match check.integration with
  | none => {}
  | some requirement =>
    let outcome := assess requirement (facts.integrations.lookup requirement.integrationId) now
    if outcome.passed then .met outcome.reason PROVIDER_SOURCE outcome.lapse
    else .failure outcome.reason PROVIDER_SOURCE

/-- Why the inventory counts as missing, if it does. -/
def stale : Option String :=
  match check.maxReportAgeSecs with
  | none => none
  | some max =>
    let age := saturatingSub now facts.reportedAt
    if max < age then
      some ("agent inventory last reported " ++ toString age ++ "s ago, older than " ++
        toString max ++ "s")
    else none

/-- The second at which a fresh inventory turns stale. -/
def freshness : Findings :=
  match check.maxReportAgeSecs with
  | none => {}
  | some max =>
    if max < saturatingSub now facts.reportedAt then {}
    else { lapses := [addI64 facts.reportedAt max] }

/-- A reported value in lower case, or what to say about its absence. -/
def reported (stale value : Option String) (label : String) : Except Findings String :=
  match stale with
  | some reason => .error (.lack (label ++ ": " ++ reason))
  | none =>
    match (value.map Text.trim).filter (· ≠ "") with
    | some value => .ok (Text.toAsciiLowercase value)
    | none => .error (.lack (label ++ " was not reported"))

/-- The operating system must be one of those named. -/
def osFamily (os : String) : Findings :=
  if check.osFamilies.isEmpty then {}
  else if check.osFamilies.contains os then
    .met ("operating system " ++ os ++ " is allowed") AGENT none
  else
    .failure ("operating system " ++ os ++ " is not one of " ++
      Text.join ", " check.osFamilies) AGENT

/-- The operating system must be recent. -/
def osVersion (stale : Option String) (os : String) : Findings :=
  match check.minOsVersions.lookup os with
  | none => {}
  | some minimum =>
    let version := reported stale facts.osVersion "OS version"
    let unread := match version with
      | .ok _ => {}
      | .error lack => lack
    match version.toOption.bind parseVersion with
    | some found =>
      if versionAtLeast found ((parseVersion minimum).getD []) then
        .met (os ++ " version meets " ++ minimum) AGENT none
      else
        .failure (os ++ " version " ++ facts.osVersion.getD "" ++ " is older than " ++
          minimum) AGENT
    | none =>
      -- A blank version is said to be missing twice, as in the source.
      if stale.isNone && facts.osVersion.isSome then
        .join [unread, .lack ("OS version " ++ Text.debug (facts.osVersion.getD "") ++
          " is not a comparable version")]
      else unread

/-- The check reads the operating system. -/
def PostureDefinition.needsOs : Bool := !check.osFamilies.isEmpty || !check.minOsVersions.isEmpty

/-- What the check asks of the operating system. -/
def osInventory (stale : Option String) : Findings :=
  if !check.needsOs then {}
  else match reported stale facts.os "operating system" with
    | .error lack => lack
    | .ok os => .join [osFamily check os, osVersion check facts stale os]

/-- What the check asks of the agent. -/
def agentInventory (stale : Option String) : Findings :=
  match check.minAgentVersion with
  | none => {}
  | some minimum =>
    match reported stale facts.agentVersion "agent version" with
    | .error lack => lack
    | .ok found =>
      match parseVersion found with
      | some parts =>
        if versionAtLeast parts ((parseVersion minimum).getD []) then
          .met ("agent " ++ found ++ " meets " ++ minimum) AGENT none
        else .failure ("agent " ++ found ++ " is older than " ++ minimum) AGENT
      | none => .lack ("agent version " ++ Text.debug found ++ " is not a comparable version")

/-- Everything the check finds, in the source's order. -/
def findings : Findings :=
  .join [approvedPeer check facts now, credentialAge check facts now,
    integrationSignal check facts now, freshness check facts now,
    osInventory check facts (stale check facts now),
    agentInventory check facts (stale check facts now)]

def conclude (name : String) (version : Int) (found : Findings) : Assessment :=
  let missingData := !found.missing.isEmpty
  let passed := found.failures.isEmpty && (!missingData || check.onMissingData = .pass)
  let policy := match check.onMissingData with
    | .fail => "check fails closed on missing data"
    | .pass => "check is configured to pass on missing data"
  let explained := found.missing.map fun reason =>
    { reason with text := reason.text ++ " (" ++ policy ++ ")" }
  { check := name
    version := version
    passed := passed
    missingData := missingData
    reasons := found.failures ++ explained ++ (if passed then found.passes else [])
    expiresAt := if passed then found.lapses.min? else none }

def evaluate (name : String) (version : Int) : Assessment :=
  conclude check name version (findings check facts now)

end Parts

end BlakTail.Posture
