import BlakTail.Access.Model

/-!
# Compiled Grants

`peer_ingress_for` folds every rule that selects a pair into one grant: six sets of
port specifications with two short cuts, `all` and the unrestricted deny.
`ingress_admits` reads a grant back the way an agent does.
-/

namespace BlakTail.Access

open Foundation

/-- Specifications gathered from rules. -/
structure Services where
  tcp : List String := []
  udp : List String := []
  icmp : Bool := false

/-- `collect_service_specs`: what one rule names, added to what is there. -/
def collectServiceSpecs (acc : Services) (rule : AclRule) : Services :=
  let allProtocols := rule.protocols.isEmpty
  let tcpOk := allProtocols || rule.protocols.contains .tcp
  let udpOk := allProtocols || rule.protocols.contains .udp
  let icmpOk := allProtocols || rule.protocols.contains .icmp
  if rule.dstPorts.isEmpty then
    { tcp := if tcpOk then insertText "1-65535" acc.tcp else acc.tcp
      udp := if udpOk then insertText "1-65535" acc.udp else acc.udp
      icmp := acc.icmp || icmpOk }
  else
    { tcp := if tcpOk then extendText acc.tcp rule.dstPorts else acc.tcp
      udp := if udpOk then extendText acc.udp rule.dstPorts else acc.udp
      icmp := acc.icmp }

/-- What one deny rule names, gathered apart and then merged. -/
def collectDenied (acc : Services) (rule : AclRule) : Services :=
  let denied := collectServiceSpecs {} rule
  { tcp := extendText acc.tcp denied.tcp
    udp := extendText acc.udp denied.udp
    icmp := acc.icmp || denied.icmp }

/-- The rule names neither ports nor protocols. -/
def AclRule.unrestricted (rule : AclRule) : Bool := rule.dstPorts.isEmpty && rule.protocols.isEmpty

/-- Close TCP 22 unless it is closed already. -/
def closePort22 (denyTcp : List String) : List String :=
  if specsCover denyTcp SSH_PORT then denyTcp else insertText (toString SSH_PORT) denyTcp

/-- Open TCP 22 unless it is closed or open already. -/
def openPort22 (denyTcp tcp : List String) : List String :=
  if !specsCover denyTcp SSH_PORT && !specsCover tcp SSH_PORT then
    insertText (toString SSH_PORT) tcp
  else tcp

namespace Acl

variable (acl : Acl)

/-- Whether the SSH grant opens TCP 22: it names someone, and either the destination
limits users or there is nothing to limit. -/
def sshOpen (now : Int) (s d : Subject) (sshUsersEnforced : Bool) : Bool :=
  let (users, denyUsers) := acl.sshGrant now s d
  let restricted := !(users == ["*"] && denyUsers.isEmpty)
  !users.isEmpty && (sshUsersEnforced || !restricted)

/-- The rules that select the pair, whatever the port and protocol. -/
def selected (s d : Subject) : List AclRule :=
  acl.rules.filter fun rule => acl.ruleMatches rule s d none none none

def selectedBy (action : Action) (s d : Subject) : List AclRule :=
  (acl.selected s d).filter fun rule => rule.action = action

/-- A deny rule without ports and protocols selects the pair. -/
def closesAll (s d : Subject) : Bool := (acl.selectedBy .deny s d).any AclRule.unrestricted

/-- The default, or an allow rule without ports and protocols, selects the pair. -/
def opensAll (s d : Subject) : Bool :=
  acl.implicitDefaultAllows s d || (acl.selectedBy .allow s d).any AclRule.unrestricted

/-- The specifications of the deny rules. -/
def denied (s d : Subject) : Services := (acl.selectedBy .deny s d).foldl collectDenied {}

/-- The specifications of the allow rules, not needed where everything is open. -/
def allowed (s d : Subject) : Services :=
  if acl.opensAll s d then { icmp := true }
  else (acl.selectedBy .allow s d).foldl collectServiceSpecs {}

/-- What `s` may send to `d`.  `sshUsersEnforced` says that the destination proved it
limits SSH users; without it a user-limited SSH grant keeps TCP 22 closed. -/
def peerIngressFor (now : Int) (s d : Subject) (sshUsersEnforced : Bool) : PeerIngress :=
  let (sshUsers, sshDenyUsers) := acl.sshGrant now s d
  let sshOpen := acl.sshOpen now s d sshUsersEnforced
  if acl.closesAll s d then
    { sshUsers := sshUsers, sshDenyUsers := sshDenyUsers }
  else
    let all := acl.opensAll s d
    let allowed := acl.allowed s d
    let denied := acl.denied s d
    let denyTcp :=
      if acl.sshGoverned s d && !sshOpen then closePort22 denied.tcp else denied.tcp
    { all := all
      tcp := if !all && sshOpen then openPort22 denyTcp allowed.tcp else allowed.tcp
      udp := allowed.udp
      icmp := allowed.icmp && !denied.icmp
      denyTcp := denyTcp
      denyUdp := denied.udp
      denyIcmp := denied.icmp
      sshUsers := sshUsers
      sshDenyUsers := sshDenyUsers }

/-- Whether the pair is connected at all. -/
def allows (now : Int) (s d : Subject) : Bool :=
  let ingress := acl.peerIngressFor now s d true
  ingress.all || ingress.icmp || !ingress.tcp.isEmpty || !ingress.udp.isEmpty

end Acl

/-! ## Reading a grant -/

/-- A list of allowed specifications: without a port, any will do. -/
def coversPort (specs : List String) : Option Nat → Bool
  | none => !specs.isEmpty
  | some port => specsCover specs port

/-- A list of denied specifications: without a port, none counts. -/
def deniesPort (specs : List String) : Option Nat → Bool
  | none => false
  | some port => specsCover specs port

/-- Whether a grant admits this protocol and port, as an agent decides it. -/
def ingressAdmits (ingress : PeerIngress) (protocol : Option AclProtocol) (port : Option Nat) :
    Bool :=
  let icmp := !ingress.denyIcmp && (ingress.all || ingress.icmp)
  let udp := !deniesPort ingress.denyUdp port && (ingress.all || coversPort ingress.udp port)
  let tcp := !deniesPort ingress.denyTcp port && (ingress.all || coversPort ingress.tcp port)
  match protocol with
  | some .icmp => icmp
  | some .udp => udp
  | some .tcp => tcp
  | none => tcp || udp || (port.isNone && icmp)

end BlakTail.Access
