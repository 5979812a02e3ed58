import BlakTail.Foundation.Ordered
import BlakTail.Foundation.Text
import BlakTail.Ingress

/-!
# Access Rules

The policy document of an organisation and its evaluator: which rules select a pair
of devices, what `allows_flow` answers for one packet, and what `allows_ssh` answers
for one login.

Maps of the document are association lists in key order, and sets are read through
membership.  The clock is the argument `now`.  The document's `generated`, `etag`,
`revision` and `has_previous` fields are never read and are left out.
-/

namespace BlakTail.Access

open Foundation

/-! ## People and devices -/

inductive Role where
  | owner
  | admin
  | member
  | networkAdmin
  | auditor
  deriving DecidableEq

def Role.asStr : Role → String
  | owner => "owner"
  | admin => "admin"
  | member => "member"
  | networkAdmin => "network_admin"
  | auditor => "auditor"

/-- The permission matrix's columns. -/
inductive Permission where
  | viewNetwork
  | managePeers
  | manageJoinKeys
  | manageNetworks
  | managePolicy
  | manageDns
  | manageServices
  | viewAudit
  | exportAudit
  | manageIntegrations
  | manageApiClients
  | manageSecurity
  | viewOperations
  | manageAgentGateway
  | viewAgentUsage
  | useRemoteSessions
  | manageRemoteJobs
  | managePublicIngress
  deriving DecidableEq

def Role.can : Role → Permission → Bool
  | owner, _ => true
  | admin, permission =>
    permission ∉ [.manageSecurity, .manageApiClients, .viewOperations, .manageRemoteJobs,
      .managePublicIngress]
  | networkAdmin, permission =>
    permission ∈ [.viewNetwork, .managePeers, .manageJoinKeys, .manageNetworks, .managePolicy,
      .manageDns, .manageServices, .viewAudit, .useRemoteSessions]
  | auditor, permission =>
    permission ∈ [.viewNetwork, .viewAudit, .exportAudit, .viewOperations, .viewAgentUsage]
  | member, permission => permission ∈ [.viewNetwork, .viewAudit]

inductive DeviceTag where
  | office
  | ranger
  | store
  deriving DecidableEq

def DeviceTag.asStr : DeviceTag → String
  | office => "office"
  | ranger => "ranger"
  | store => "store"

/-- A tag from its text. -/
def DeviceTag.ofStr (s : String) : Option DeviceTag :=
  [office, ranger, store].find? fun tag => tag.asStr = s

/-- A device as rules see it. -/
structure Subject where
  role : Role := .member
  tags : List DeviceTag := []
  userId : String := ""
  email : String := ""
  passedPosture : List String := []
  authenticatedAt : Option Int := none

/-! ## The document -/

inductive Action where
  | allow
  | deny
  deriving DecidableEq

inductive AclSshAction where
  | allow
  | deny
  | check
  deriving DecidableEq

/-- Protocols a rule may name. -/
inductive AclProtocol where
  | tcp
  | udp
  | icmp
  deriving DecidableEq

/-- What holds where no rule matches. -/
inductive AclDefaults where
  | sameTag
  | deny
  deriving DecidableEq

structure AclRule where
  action : Action
  srcRoles : List Role := []
  srcTags : List DeviceTag := []
  srcGroups : List String := []
  dstRoles : List Role := []
  dstTags : List DeviceTag := []
  dstGroups : List String := []
  dstHosts : List String := []
  dstPorts : List String := []
  protocols : List AclProtocol := []
  posture : List String := []

structure AclSshRule where
  action : AclSshAction
  srcRoles : List Role := []
  srcTags : List DeviceTag := []
  srcGroups : List String := []
  dstRoles : List Role := []
  dstTags : List DeviceTag := []
  dstGroups : List String := []
  users : List String
  checkPeriodSecs : Option Nat := none
  posture : List String := []

/-- One assertion a document makes about itself. -/
structure AclTest where
  name : String := ""
  srcRole : Option Role := none
  srcTags : List DeviceTag := []
  srcUser : String := ""
  srcEmail : String := ""
  dstRole : Option Role := none
  dstTags : List DeviceTag := []
  dstUser : String := ""
  dstEmail : String := ""
  dstHost : String := ""
  dstPort : Option Nat := none
  protocol : Option AclProtocol := none
  sshUser : String := ""
  srcPosture : List String := []
  allow : Bool

/-- Which shares a source may read or write. -/
structure DriveGrant where
  srcRoles : List String := []
  srcTags : List String := []
  srcGroups : List String := []
  dstRoles : List String := []
  dstTags : List String := []
  dstGroups : List String := []
  sameUser : Bool := false
  shares : List String
  access : String

/-- Who may publish folders and who may open them. -/
structure DrivePolicy where
  share : List String := []
  access : List String := []
  grants : List DriveGrant := []

/-- People by group name. -/
abbrev Groups := List (String × List String)

structure Acl where
  version : Nat := 1
  defaults : AclDefaults := .sameTag
  groups : Groups := []
  tagOwners : List (String × List String) := []
  hosts : List (String × String) := []
  rules : List AclRule := []
  ssh : List AclSshRule := []
  tests : List AclTest := []
  drive : Option DrivePolicy := none

/-! ## Selectors -/

/-- The subject is one of the listed people, by user id or email. -/
def subjectInGroup (subject : Subject) (members : List String) : Bool :=
  members.any fun member =>
    let member := Text.trim member
    member != "" &&
      ((subject.userId != "" && Text.eqIgnoreAsciiCase member (Text.trim subject.userId)) ||
        (subject.email != "" && Text.eqIgnoreAsciiCase member (Text.trim subject.email)))

/-- An empty selector part selects everyone; the three parts are combined with and. -/
def selector (roles : List Role) (tags : List DeviceTag) (groups : List String) (s : Subject)
    (named : Groups) : Bool :=
  (roles.isEmpty || roles.contains s.role) &&
    (tags.isEmpty || tags.any fun tag => s.tags.contains tag) &&
    (groups.isEmpty || groups.any fun name =>
      match named.lookup name with
      | some members => subjectInGroup s members
      | none => false)

/-- The source passes every named posture check. -/
def postureSatisfied (required : List String) (s : Subject) : Bool :=
  required.all fun name => s.passedPosture.contains name

/-! ## Ports -/

/-- A rejected request, with its text. -/
inductive ApiError where
  | badRequest (message : String)
  deriving DecidableEq

/-- `*`, a port or a range of ports. -/
def parseAclPortSpec (value : String) : Except ApiError (Nat × Nat) :=
  let value := Text.trim value
  if value = "*" then .ok (1, 65535)
  else
    let (first, last) := (Text.splitOnce '-' value).getD (value, value)
    let invalid := ApiError.badRequest
      ("ACL port " ++ Text.debug value ++ " must be 1-65535 or a range")
    match Text.parseU16 first, Text.parseU16 last with
    | some first, some last =>
      if first = 0 ∨ last = 0 ∨ last < first then
        .error (.badRequest
          ("ACL port " ++ Text.debug value ++ " must be 1-65535 or a start-end range"))
      else .ok (first, last)
    | _, _ => .error invalid

/-- One specification covers the port; a malformed one covers none. -/
def specCovers (spec : String) (port : Nat) : Bool :=
  match parseAclPortSpec spec with
  | .ok (first, last) => first ≤ port && port ≤ last
  | .error _ => false

/-- `specs_cover`: some specification covers the port. -/
def specsCover (specs : List String) (port : Nat) : Bool :=
  specs.any fun spec => specCovers spec port

/-- A rule without ports, and a question without a port, match. -/
def portSpecMatches (specs : List String) (port : Option Nat) : Bool :=
  specs.isEmpty || match port with
    | none => true
    | some port => specsCover specs port

/-- A rule without protocols, and a question without one, match. -/
def protocolMatches (protocols : List AclProtocol) (protocol : Option AclProtocol) : Bool :=
  match protocol with
  | none => true
  | some wanted => protocols.isEmpty || protocols.contains wanted

/-! ## The evaluator -/

/-- The port SSH rules are authoritative for. -/
def SSH_PORT : Nat := 22

/-- Renewal period of `check` rules without one of their own. -/
def DEFAULT_SSH_CHECK_PERIOD_SECS : Nat := 12 * 60 * 60

/-- `u64 as i64`. -/
def asI64 (n : Nat) : Int := (BitVec.ofNat 64 n).toInt

/-- `i64::saturating_sub`. -/
def saturatingSub (a b : Int) : Int := max (-2 ^ 63) (min (a - b) (2 ^ 63 - 1))

def AclSshRule.period (rule : AclSshRule) : Int :=
  asI64 (rule.checkPeriodSecs.getD DEFAULT_SSH_CHECK_PERIOD_SECS)

/-- The source may use the rule: its posture, and for a `check` rule a credential issued
within its period. -/
def sshSourceEligible (now : Int) (rule : AclSshRule) (s : Subject) : Bool :=
  postureSatisfied rule.posture s &&
    (rule.action != .check ||
      match s.authenticatedAt with
      | some issued => saturatingSub now issued ≤ rule.period
      | none => false)

namespace Acl

variable (acl : Acl)

def ruleMatches (rule : AclRule) (s d : Subject) (port : Option Nat)
    (protocol : Option AclProtocol) (host : Option String) : Bool :=
  selector rule.srcRoles rule.srcTags rule.srcGroups s acl.groups &&
    postureSatisfied rule.posture s &&
    (match host with
      | some name => rule.dstHosts.isEmpty || rule.dstHosts.contains name
      | none => rule.dstHosts.isEmpty) &&
    selector rule.dstRoles rule.dstTags rule.dstGroups d acl.groups &&
    portSpecMatches rule.dstPorts port && protocolMatches rule.protocols protocol

/-- The document's default lets the pair talk. -/
def implicitDefaultAllows (s d : Subject) : Bool :=
  match acl.defaults with
  | .deny => false
  | .sameTag => (s.tags.isEmpty && d.tags.isEmpty) || s.tags.any fun tag => d.tags.contains tag

/-- The rule names both sides. -/
def sshSubjectsMatch (rule : AclSshRule) (s d : Subject) : Bool :=
  selector rule.srcRoles rule.srcTags rule.srcGroups s acl.groups &&
    selector rule.dstRoles rule.dstTags rule.dstGroups d acl.groups

/-- The rule names both sides, the login, and the source is eligible. -/
def sshRuleMatches (now : Int) (rule : AclSshRule) (s d : Subject) (user : String) : Bool :=
  acl.sshSubjectsMatch rule s d && sshSourceEligible now rule s &&
    rule.users.any fun named => named = "*" || named = user

/-- SSH rules decide TCP 22 for this pair: an allow or check rule names the
destination, or a deny rule names both sides. -/
def sshGoverned (s d : Subject) : Bool :=
  acl.ssh.any fun rule =>
    selector rule.dstRoles rule.dstTags rule.dstGroups d acl.groups &&
      (rule.action != .deny || selector rule.srcRoles rule.srcTags rule.srcGroups s acl.groups)

/-- What the rules say about one user list while they are gathered. -/
structure SshUsers where
  allow : List String := []
  deny : List String := []
  allowStar : Bool := false
  denyStar : Bool := false

def addSshRule (now : Int) (s d : Subject) (acc : SshUsers) (rule : AclSshRule) : SshUsers :=
  if !acl.sshSubjectsMatch rule s d || !sshSourceEligible now rule s then acc
  else
    let star := rule.users.any fun user => user = "*"
    let named := rule.users.filter fun user => user ≠ "*"
    match rule.action with
    | .deny => { acc with denyStar := acc.denyStar || star, deny := extendText acc.deny named }
    | _ => { acc with allowStar := acc.allowStar || star, allow := extendText acc.allow named }

/-- Allowed and denied logins for `s` on `d`.  A `*` allow keeps explicit denies. -/
def sshGrant (now : Int) (s d : Subject) : List String × List String :=
  let users := acl.ssh.foldl (acl.addSshRule now s d) {}
  if users.denyStar then ([], [])
  else if users.allowStar then (["*"], users.deny)
  else (users.allow.filter fun user => !users.deny.contains user, [])

def allowsFlow (now : Int) (s d : Subject) (port : Option Nat) (protocol : Option AclProtocol)
    (host : Option String) : Bool :=
  let matching := acl.rules.filter fun rule => acl.ruleMatches rule s d port protocol host
  if matching.any fun rule => rule.action = .deny then false
  else if host.isNone && port = some SSH_PORT && (protocol = none || protocol = some .tcp) &&
      acl.sshGoverned s d && (acl.sshGrant now s d).1.isEmpty then false
  else if matching.any fun rule => rule.action = .allow then true
  else if host.isSome then false
  else acl.implicitDefaultAllows s d

def allowsSsh (now : Int) (s d : Subject) (user : String) : Bool :=
  let matching := acl.ssh.filter fun rule => acl.sshRuleMatches now rule s d user
  if matching.any fun rule => rule.action = .deny then false
  else matching.any fun rule => rule.action = .allow || rule.action = .check

end Acl

end BlakTail.Access
