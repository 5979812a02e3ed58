import BlakTail.Access.Model
import BlakTail.Foundation.Address
import BlakTail.Foundation.Fallible

/-!
# Accepting a Document

`Acl::validate` with its error texts.  Every check is run in the source's order, and the
first that fails gives the answer.  The last part evaluates the document's own tests.

What later modules use of an accepted document is at the end: `validate_sshUsers` says
that its SSH rules name plain logins or `*`, and `validate_checkPeriod` that the periods
of its check rules are within bounds.
-/

namespace BlakTail.Access

open Foundation Text

/-- Fail with a text when `bad` holds. -/
def reject (bad : Bool) (message : String) : Except ApiError Unit :=
  failIf bad (.badRequest message)

/-! ## Names -/

/-- Names of groups, hosts and posture checks. -/
def validAclGroupName (name : String) : Bool :=
  match name.toList with
  | first :: rest =>
    isAsciiLowercase first && byteLen name ≤ 32 &&
      rest.all fun c => isAsciiLowercase c || isAsciiDigit c || c = '-'
  | [] => false

/-- `*`, or a login. -/
def validSshOsUser (user : String) : Bool :=
  if user = "*" then true
  else match user.toList with
    | [] => false
    | first :: rest =>
      byteLen user ≤ 32 && (isAsciiAlphabetic first || first = '_') &&
        rest.all fun c =>
          isAsciiAlphabetic c || isAsciiDigit c || c = '.' || c = '_' || c = '-'

/-- Posture references of a rule; `allowed` says that the rule may have some. -/
def validatePostureRefs (names : List String) (allowed : Bool) : Except ApiError Unit := do
  if names.isEmpty then return ()
  reject (!allowed) "ACL posture checks only apply to allow and check rules"
  reject (8 < names.length) "ACL rules may reference at most 8 posture checks"
  match names.find? fun name => !validAclGroupName name with
  | some name =>
    throw (.badRequest ("ACL posture check name " ++ debug name ++
      " must be 1-32 lowercase letters, digits, or hyphens"))
  | none => return ()

/-! ## Named hosts -/

/-- A private IPv4 or unique-local IPv6 address. -/
def requirePrivateHostIp (address : IpAddr) (value : String) : Except ApiError Unit :=
  let allowed := match address with
    | .v4 bits =>
      let n := bits.toNat
      -- 10/8, 172.16/12, 192.168/16 and 100.64/10
      n / 2 ^ 24 = 10 || n / 2 ^ 20 = 0xAC1 || n / 2 ^ 16 = 0xC0A8 || n / 2 ^ 22 = 0x191
    | .v6 bits => bits.toNat / 2 ^ 121 = 0x7E
  let special := match address with
    | .v4 bits => bits.toNat = 0 || bits.toNat / 2 ^ 28 = 0xE || bits.toNat / 2 ^ 24 = 127
    | .v6 bits => bits.toNat = 0 || bits.toNat / 2 ^ 120 = 0xFF || bits.toNat = 1
  reject (special || !allowed)
    ("ACL host " ++ value ++ " must be a private IPv4 or unique-local IPv6 address")

/-- Bits of an address and their number. -/
def addressBits : IpAddr → Nat × Nat
  | .v4 bits => (bits.toNat, 32)
  | .v6 bits => (bits.toNat, 128)

/-- The target of a named host: an address or a network. -/
def parseAclHostTarget (value : String) : Except ApiError Unit := do
  let value := toAsciiLowercase (trimEndMatches '.' (trim value))
  reject (value = "" || contains "blaktail" value)
    "ACL hosts cannot be empty or use .blaktail names"
  reject (value = "0.0.0.0/0" || value = "::/0") "ACL hosts cannot name a default route"
  match IpAddr.parse value with
  | some address => requirePrivateHostIp address value
  | none =>
    let malformed := ApiError.badRequest
      ("ACL host " ++ value ++ " must be an IPv4/IPv6 address or CIDR")
    let badLength := ApiError.badRequest ("ACL host " ++ value ++ " has an invalid prefix")
    let some (address, length) := splitOnce '/' value | throw malformed
    let some address := IpAddr.parse address | throw malformed
    let some length := parseU8 length | throw badLength
    let (bits, width) := addressBits address
    failIf (width < length) badLength
    reject (bits % 2 ^ (width - length) ≠ 0) ("ACL host " ++ value ++ " is not a network address")
    requirePrivateHostIp address value

/-! ## The drive section -/

/-- Roles a drive policy may name. -/
def DRIVE_ROLES : List String := ["owner", "admin", "member", "network_admin", "auditor"]

/-- Tags a drive policy may name. -/
def DRIVE_TAGS : List String := ["office", "ranger", "store"]

/-- Longest share name. -/
def MAX_LABEL_LEN : Nat := 32

/-- Share names: lower-case letters, digits, `-`, `_`, brackets and inner blanks. -/
def validShareLabel (label : String) : Bool :=
  label != "" && byteLen label ≤ MAX_LABEL_LEN &&
    label.toList.head? != some '-' && label.toList.getLast? != some '-' &&
    label.toList.head? != some ' ' && label.toList.getLast? != some ' ' &&
    label.toList.all fun c =>
      isAsciiLowercase c || isAsciiDigit c || ['-', '_', '(', ')', ' '].contains c

/-- The form share names are compared in. -/
def canonicalLabel (label : String) : Except ApiError String :=
  let label := toAsciiLowercase (trim label)
  if !validShareLabel label then
    .error (.badRequest ("share name must be 1-32 letters, digits, hyphens, underscores, " ++
      "parentheses, or spaces"))
  else .ok label

/-- `*`, a role, `tag:name` or `group:name`. -/
def checkActorSelector (groups : Groups) (selector : String) : Except ApiError Unit :=
  let selector := trim selector
  if selector = "*" ∨ selector ∈ DRIVE_ROLES then .ok ()
  else match stripPrefix "tag:" selector with
    | some tag =>
      reject (!DRIVE_TAGS.contains tag) ("drive selector " ++ selector ++ " is not a known tag")
    | none => match stripPrefix "group:" selector with
      | some group =>
        reject (groups.lookup group).isNone
          ("drive selector " ++ selector ++ " is not a known group")
      | none =>
        .error (.badRequest
          ("drive selector " ++ selector ++ " must be *, a role, tag:name, or group:name"))

def validateGrant (groups : Groups) (grant : DriveGrant) : Except ApiError Unit := do
  let selected := !grant.srcRoles.isEmpty || !grant.srcTags.isEmpty || !grant.srcGroups.isEmpty ||
    !grant.dstRoles.isEmpty || !grant.dstTags.isEmpty || !grant.dstGroups.isEmpty || grant.sameUser
  reject (!selected) "drive grant must select a source, a destination, or the same person"
  reject (grant.shares.isEmpty || 32 < grant.shares.length)
    "drive grant must name 1-32 shares, or *"
  checkAll (fun name => if name = "*" then .ok () else (canonicalLabel name).map fun _ => ())
    grant.shares
  reject (grant.access != "ro" && grant.access != "rw") "drive grant access must be ro or rw"
  checkAll (fun name => reject (groups.lookup name).isNone
    ("drive grant refers to unknown group " ++ name)) (grant.srcGroups ++ grant.dstGroups)
  checkAll (fun role => reject (!DRIVE_ROLES.contains role)
    ("drive grant role " ++ role ++ " is not a known role")) (grant.srcRoles ++ grant.dstRoles)
  checkAll (fun tag => reject (!DRIVE_TAGS.contains tag)
    ("drive grant tag " ++ tag ++ " is not a known tag")) (grant.srcTags ++ grant.dstTags)

def validatePolicy (policy : DrivePolicy) (groups : Groups) : Except ApiError Unit := do
  reject (policy.share.isEmpty || policy.access.isEmpty)
    "drive policy must say who can share and who can access shared folders"
  reject (64 < policy.grants.length) "drive policy is limited to 64 grants"
  checkAll (checkActorSelector groups) (policy.share ++ policy.access)
  checkAll (validateGrant groups) policy.grants

/-! ## The document -/

namespace Acl

variable (acl : Acl) {now : Int}

def validateTagOwners (entry : String × List String) : Except ApiError Unit := do
  let (tag, owners) := entry
  reject (DeviceTag.ofStr tag).isNone
    ("ACL tag owner key " ++ debug tag ++ " is not a known tag")
  reject owners.isEmpty ("ACL tag " ++ tag ++ " must list at least one owner")
  reject (owners.any fun owner => trim owner = "")
    ("ACL tag " ++ tag ++ " has an empty owner")

def validateHost (entry : String × String) : Except ApiError Unit := do
  let (name, target) := entry
  reject (!validAclGroupName name) ("ACL host name " ++ debug name ++
    " must be 1-32 lowercase letters, digits, or hyphens")
  parseAclHostTarget target

def validateGroup (entry : String × List String) : Except ApiError Unit := do
  let (name, members) := entry
  reject (!validAclGroupName name) ("ACL group name " ++ debug name ++
    " must be 1-32 lowercase letters, digits, or hyphens")
  reject members.isEmpty ("ACL group " ++ name ++ " must include at least one person")
  reject (256 < members.length) ("ACL group " ++ name ++ " is limited to 256 people")
  reject (members.any fun member => trim member = "")
    ("ACL group " ++ name ++ " has an empty member")

def validateRule (rule : AclRule) : Except ApiError Unit := do
  checkAll (fun name => reject (acl.groups.lookup name).isNone
    ("ACL rule refers to unknown group " ++ name)) (rule.srcGroups ++ rule.dstGroups)
  checkAll (fun name => reject (acl.hosts.lookup name).isNone
    ("ACL rule refers to unknown host " ++ name)) rule.dstHosts
  reject (16 < rule.dstPorts.length) "ACL rules are limited to 16 destination port ranges"
  checkAll (fun spec => (parseAclPortSpec spec).map fun _ => ()) rule.dstPorts
  reject (rule.protocols.contains .icmp && !rule.dstPorts.isEmpty)
    "ACL ICMP rules cannot name destination ports"
  validatePostureRefs rule.posture (rule.action = .allow)

/-- The renewal period of an SSH rule. -/
def validateCheckPeriod (rule : AclSshRule) : Except ApiError Unit :=
  match rule.action, rule.checkPeriodSecs with
  | .check, some period =>
    reject (period < 1 || 7 * 24 * 60 * 60 < period)
      "ACL SSH check period must be 1-604800 seconds"
  | .check, none => .ok ()
  | _, some _ => .error (.badRequest "ACL SSH check period is only valid on check actions")
  | _, none => .ok ()

def sshRuleChecks (rule : AclSshRule) : List (Except ApiError Unit) := [
  checkAll (fun name => reject (acl.groups.lookup name).isNone
    ("ACL SSH rule refers to unknown group " ++ name)) (rule.srcGroups ++ rule.dstGroups),
  reject (rule.users.isEmpty || 16 < rule.users.length)
    "ACL SSH rules must name 1-16 operating-system users",
  validatePostureRefs rule.posture (rule.action ≠ .deny),
  checkAll (fun user => reject (!validSshOsUser user)
    ("ACL SSH user " ++ debug user ++ " must be * or a 1-32 character login")) rule.users,
  validateCheckPeriod rule]

/-- The simulated source of a test: it has just authenticated and passes the checks the
test names. -/
def testSource (now : Int) (test : AclTest) : Subject where
  role := test.srcRole.getD .member
  tags := test.srcTags
  userId := test.srcUser
  email := test.srcEmail
  passedPosture := test.srcPosture
  authenticatedAt := some now

def testDestination (test : AclTest) : Subject where
  role := test.dstRole.getD .member
  tags := test.dstTags
  userId := test.dstUser
  email := test.dstEmail

def testAnswer (now : Int) (test : AclTest) : Bool :=
  if test.sshUser = "" then
    acl.allowsFlow now (testSource now test) (testDestination test) test.dstPort test.protocol
      (if test.dstHost = "" then none else some test.dstHost)
  else acl.allowsSsh now (testSource now test) (testDestination test) test.sshUser

def validateTest (now : Int) (entry : AclTest × Nat) : Except ApiError Unit := do
  let (test, index) := entry
  reject (test.dstHost != "" && (acl.hosts.lookup test.dstHost).isNone)
    ("ACL test refers to unknown host " ++ test.dstHost)
  reject (test.dstPort = some 0) "ACL test destination port must be 1-65535"
  reject (test.protocol = some .icmp && test.dstPort.isSome)
    "ACL ICMP tests cannot name a destination port"
  reject (test.sshUser != "" &&
      (test.dstPort.isSome || test.protocol.isSome || test.dstHost != ""))
    "ACL SSH tests cannot name a host, port, or protocol"
  reject (test.sshUser != "" && !validSshOsUser test.sshUser)
    ("ACL SSH test user " ++ debug test.sshUser ++ " must be * or a 1-32 character login")
  validatePostureRefs test.srcPosture true
  let allowed := acl.testAnswer now test
  let label := if test.name = "" then "#" ++ toString (index + 1) else test.name
  reject (allowed != test.allow)
    ("ACL test " ++ label ++ " expected allow=" ++ toString test.allow ++
      " but evaluator returned " ++ toString allowed)

def validateDrive : Except ApiError Unit :=
  match acl.drive with
  | some drive => validatePolicy drive acl.groups
  | none => .ok ()

def checks (now : Int) : List (Except ApiError Unit) := [
  reject (acl.version ≠ 1) ("unsupported policy version " ++ toString acl.version),
  acl.validateDrive,
  reject (16 < acl.tagOwners.length) "ACL tag owners are limited to 16 tags",
  checkAll validateTagOwners acl.tagOwners,
  reject (128 < acl.tests.length) "ACL tests are limited to 128 assertions",
  reject (64 < acl.hosts.length) "ACL hosts are limited to 64 named addresses",
  checkAll validateHost acl.hosts,
  reject (64 < acl.groups.length) "ACL groups are limited to 64 named sets",
  checkAll validateGroup acl.groups,
  reject (acl.rules.any fun rule => rule.srcRoles.isEmpty && rule.srcTags.isEmpty &&
      rule.srcGroups.isEmpty && rule.dstRoles.isEmpty && rule.dstTags.isEmpty &&
      rule.dstGroups.isEmpty && rule.dstHosts.isEmpty)
    "ACL rules must select a source or destination",
  checkAll acl.validateRule acl.rules,
  reject (32 < acl.ssh.length) "ACL SSH rules are limited to 32 entries",
  reject (acl.ssh.any fun rule => rule.srcRoles.isEmpty && rule.srcTags.isEmpty &&
      rule.srcGroups.isEmpty && rule.dstRoles.isEmpty && rule.dstTags.isEmpty &&
      rule.dstGroups.isEmpty)
    "ACL SSH rules must select a source or destination",
  checkAll (fun rule => allOk (acl.sshRuleChecks rule)) acl.ssh,
  checkAll (acl.validateTest now) acl.tests.zipIdx]

def validate (now : Int) : Except ApiError Unit := allOk (acl.checks now)

/-! ## What acceptance gives -/

variable {acl}

section

variable (h : acl.validate now = .ok ())
include h

/-- The SSH rules of an accepted document pass their checks. -/
theorem validate_sshRule {rule : AclSshRule} (hrule : rule ∈ acl.ssh) :
    ∀ check ∈ acl.sshRuleChecks rule, check = .ok () := by
  have hssh := allOk_eq_ok.mp h (checkAll (fun rule => allOk (acl.sshRuleChecks rule)) acl.ssh)
    (by simp [checks])
  exact allOk_eq_ok.mp (checkAll_eq_ok.mp hssh rule hrule)

theorem validate_checkPeriod {rule : AclSshRule} (hrule : rule ∈ acl.ssh) :
    validateCheckPeriod rule = .ok () :=
  validate_sshRule h hrule _ (by simp [sshRuleChecks])

/-- The SSH rules of an accepted document name logins or `*`. -/
theorem validate_sshUsers {rule : AclSshRule} (hrule : rule ∈ acl.ssh) {user : String}
    (huser : user ∈ rule.users) : validSshOsUser user := by
  have husers := validate_sshRule h hrule (checkAll (fun user => reject (!validSshOsUser user)
    ("ACL SSH user " ++ debug user ++ " must be * or a 1-32 character login")) rule.users)
    (by simp [sshRuleChecks])
  simpa using failIf_eq_ok.mp (checkAll_eq_ok.mp husers user huser)

end

/-- A rule that may not name posture checks names none. -/
theorem validatePostureRefs_forbidden {names : List String}
    (h : validatePostureRefs names false = .ok ()) : names = [] := by
  cases names with
  | nil => rfl
  | cons name names => simp [validatePostureRefs, reject, failIf] at h

/-- The deny rules of an accepted document name no posture checks. -/
theorem validate_denyPosture (h : acl.validate now = .ok ()) {rule : AclRule}
    (hrule : rule ∈ acl.rules) (hdeny : rule.action = .deny) : rule.posture = [] := by
  have hrules := allOk_eq_ok.mp h (checkAll acl.validateRule acl.rules) (by simp [checks])
  have hchecked := checkAll_eq_ok.mp hrules rule hrule
  unfold validateRule at hchecked
  simp only [bind_ok_iff] at hchecked
  obtain ⟨-, -, -, -, -, -, -, -, -, -, hposture⟩ := hchecked
  rw [hdeny] at hposture
  exact validatePostureRefs_forbidden hposture

theorem validate_sshDenyPosture (h : acl.validate now = .ok ()) {rule : AclSshRule}
    (hrule : rule ∈ acl.ssh) (hdeny : rule.action = .deny) : rule.posture = [] := by
  have hposture := validate_sshRule h hrule
    (validatePostureRefs rule.posture (rule.action ≠ .deny)) (by simp [sshRuleChecks])
  rw [hdeny] at hposture
  exact validatePostureRefs_forbidden hposture

end Acl

end BlakTail.Access
