import BlakTail.Access.Compile
import BlakTail.Addressing.Cidr
import BlakTail.Control.Peer

/-!
# Forward Filters of Routing Peers

The coordinator tells a routing peer what it may forward for each client: denies, which win, and
allows, each from the client's overlay addresses to a prefix with a service.  `compile_client`
builds the entries of one client from the policy, the distributed resources and the router's
routes; `permits` reads a filter back.

A service cannot name IP protocols other than TCP, UDP and ICMP.  `Traffic.other` stands for
all of those, so that what a filter makes of them can be said too: only an entry for everything
admits them.
-/

namespace BlakTail.Forwarding

open Foundation Addressing Access Control

/-! ## Services -/

structure ForwardService where
  all : Bool := false
  tcp : List String := []
  udp : List String := []
  icmp : Bool := false
  deriving DecidableEq

namespace ForwardService

def everything : ForwardService := { all := true }

def isEmpty (service : ForwardService) : Bool :=
  !service.all && !service.icmp && service.tcp.isEmpty && service.udp.isEmpty

def merge (service other : ForwardService) : ForwardService :=
  if service.all || other.all then everything
  else
    { all := false
      tcp := extendText [] (service.tcp ++ other.tcp)
      udp := extendText [] (service.udp ++ other.udp)
      icmp := service.icmp || other.icmp }

/-- Whether the service admits the protocol and port (`none` means any). -/
def admits (service : ForwardService) (protocol : Option AclProtocol) (port : Option Nat) : Bool :=
  service.all ||
    match protocol with
    | some .tcp => coversPort service.tcp port
    | some .udp => coversPort service.udp port
    | some .icmp => service.icmp
    | none =>
      coversPort service.tcp port || coversPort service.udp port || (port.isNone && service.icmp)

end ForwardService

/-- What is asked of a filter: a protocol and port as in policy, or an IP protocol that
policy has no name for. -/
inductive Traffic where
  | asked (protocol : Option AclProtocol) (port : Option Nat)
  | other
  deriving DecidableEq

def ForwardService.carries (service : ForwardService) : Traffic → Bool
  | .asked protocol port => service.admits protocol port
  | .other => service.all

def ruleService (rule : AclRule) : ForwardService :=
  let services := collectServiceSpecs {} rule
  { all := false, tcp := services.tcp, udp := services.udp, icmp := services.icmp }

/-! ## Filters -/

structure ForwardRule where
  client : Uuid
  sources : List String
  destination : String
  service : ForwardService
  deriving DecidableEq

/-- Agents apply every deny before any allow and drop what neither lists. -/
structure ForwardFilter where
  deny : List ForwardRule := []
  allow : List ForwardRule := []
  deriving DecidableEq

namespace ForwardFilter

variable (filter : ForwardFilter)

/-- Whether the filter lets `host` be reached with a service that passes the test. -/
def admits (host : String) (test : ForwardService → Bool) : Bool :=
  let applies := fun rule : ForwardRule => cidrWithin host rule.destination
  if (filter.deny.filter applies).any fun rule => test rule.service then false
  else (filter.allow.filter applies).any fun rule => test rule.service

/-- `permits`, as `policy explain` asks it. -/
def permits (host : String) (protocol : Option AclProtocol) (port : Option Nat) : Bool :=
  filter.admits host fun service => service.admits protocol port

def ofSource (source : String) : ForwardFilter where
  deny := filter.deny.filter fun rule => rule.sources.contains source
  allow := filter.allow.filter fun rule => rule.sources.contains source

/-- Whether the filter lets traffic from a source to a host through. -/
def forwards (source host : String) (traffic : Traffic) : Bool :=
  (filter.ofSource source).admits host fun service => service.carries traffic

end ForwardFilter

/-! ## Distribution -/

structure ResourceAccess where
  roles : List Role := []
  tags : List DeviceTag := []
  groups : List String := []

/-- `ResourceAccess::matches`: any selected role, tag or group. -/
def ResourceAccess.selects (access : ResourceAccess) (subject : Subject) (groups : Groups) : Bool :=
  access.roles.contains subject.role ||
    (access.tags.any fun tag => subject.tags.contains tag) ||
    access.groups.any fun name =>
      match groups.lookup name with
      | some members => subjectInGroup subject members
      | none => false

structure ActiveRoute where
  cidr : String
  router : Uuid
  routingPeers : List Uuid := []
  access : ResourceAccess := {}
  service : ForwardService := {}

/-- The resources an organisation distributes, each pinned to its selected routing peer, and
every resource prefix with all of its routing peers. -/
structure Distribution where
  routes : List ActiveRoute := []
  reserved : List (String × List Uuid) := []

namespace Distribution

variable (distribution : Distribution)

/-- The filter of `grants_via`. -/
def usable (router source : Uuid) (subject : Subject) (acl : Acl) (exitSelected : Bool)
    (route : ActiveRoute) : Bool :=
  route.router = router && !route.routingPeers.contains source &&
    (!isDefaultRoute route.cidr || exitSelected) && route.access.selects subject acl.groups

def grantsVia (router source : Uuid) (subject : Subject) (acl : Acl) (exitSelected : Bool) :
    List (String × ForwardService) :=
  (distribution.routes.filter (usable router source subject acl exitSelected)).map
    fun route => (route.cidr, route.service)

def carriedBy (router : Uuid) : List String :=
  (distribution.routes.filter fun route => route.router = router).map ActiveRoute.cidr

def reservedFor (router : Uuid) : List String :=
  distribution.carriedBy router ++
    (distribution.reserved.filter fun entry => entry.2.contains router).map Prod.fst

end Distribution

/-! ## Routers and clients -/

/-- `Uuid::to_string`. -/
def uuidText (id : Uuid) : String :=
  let digits := (Text.hexPadded 32 id).toList
  Text.join "-" ([(0, 8), (8, 4), (12, 4), (16, 4), (20, 12)].map fun (start, count) =>
    String.ofList ((digits.drop start).take count))

/-- The routing peer whose filter is compiled. -/
structure RouterView where
  id : Uuid
  name : String := ""
  dnsName : String := ""
  subject : Subject := {}
  approved : List String := []
  advertised : List String := []

def RouterView.selectedBy (router : RouterView) (requested : Option String) : Bool :=
  requested.any fun requested =>
    requested = uuidText router.id || requested = router.name || requested = router.dnsName

/-- One client the routing peer could forward for. -/
structure ClientView where
  id : Uuid
  subject : Subject := {}
  overlay : List String := []
  exitRequest : Option String := none

def hostAddresses (allowedIps : List String) : List String :=
  allowedIps.filter fun route =>
    match parseCidr route with
    | some (address, len) => len = width address.isIpv4
    | none => false

/-- A policy host value as a prefix. -/
def hostCidr (value : String) : Option String :=
  let value := Text.toAsciiLowercase (Text.trimEndMatches '.' (Text.trim value))
  match IpAddr.parse value with
  | some address => some (cidrText address (width address.isIpv4))
  | none => (parseCidr value).map fun _ => value

/-! ## The complement of the exit route -/

/-- `a/alen` contains `b` when `b` is at least as long and agrees on `alen` bits. -/
def blockContains (bits a alen b blen : Nat) : Bool :=
  alen ≤ blen && (alen = 0 || (a ^^^ b) >>> (bits - alen) = 0)

/-- What is left of `net` with `bits - rest` leading bits.  With no bits left to halve on,
something excluded inside the block is the block, so the last branch is not reached. -/
def split (bits : Nat) (excluded : List Block) : (rest : Nat) → (net : Nat) → List Block
  | rest, net =>
    let len := bits - rest
    if excluded.any fun gone => blockContains bits gone.net gone.len net len then []
    else if !excluded.any fun gone => blockContains bits net len gone.net gone.len then
      [⟨net, len⟩]
    else
      match rest with
      | 0 => []
      | rest + 1 => split bits excluded rest net ++ split bits excluded rest (net ||| 2 ^ rest)

/-- `Ipv4Addr::from` or `Ipv6Addr::from`. -/
def addressOf (ipv4 : Bool) (bits : Nat) : IpAddr :=
  if ipv4 then .v4 (BitVec.ofNat 32 bits) else .v6 (BitVec.ofNat 128 bits)

def excludedBlocks (ipv4 : Bool) (excluded : List String) : List Block :=
  ((excluded.filterMap parseCidr).filter fun c => c.1.isIpv4 = ipv4).map Cidr.block

/-- A default route without every excluded prefix of its family. -/
def complement (whole : String) (excluded : List String) : List String :=
  match parseCidr whole with
  | none => []
  | some (network, _) =>
    let ipv4 := network.isIpv4
    (split (width ipv4) (excludedBlocks ipv4 excluded) (width ipv4) 0).map fun part =>
      cidrText (addressOf ipv4 part.net) part.len

/-! ## Compilation -/

/-- Named hosts are judged as themselves, not as the routing peer. -/
def hostSubject : Subject := { role := .member, tags := [] }

section Compile

variable (acl : Acl) (now : Int) (distribution : Distribution) (router : RouterView)
  (client : ClientView)

/-- `entry(cidr).or_default().merge(&service)`. -/
def addGrant (grants : List (String × ForwardService)) (grant : String × ForwardService) :
    List (String × ForwardService) :=
  insertKey grant.1 (((grants.lookup grant.1).getD {}).merge grant.2) grants

/-- The prefixes the client may reach through the router and the service on each. -/
def grants : List (String × ForwardService) :=
  let exit := router.selectedBy client.exitRequest
  let approved := (router.approved.filter fun route => !isDefaultRoute route || exit).foldl
    (fun grants route => insertKey route .everything grants) []
  (distribution.grantsVia router.id client.id client.subject acl exit).foldl addGrant approved

/-- The prefixes an exit client must not reach by the exit route alone. -/
def carried : List String :=
  extendText [] ((router.approved ++ router.advertised ++ distribution.reservedFor router.id).filter
    fun route => !isDefaultRoute route)

/-- One rule of a named host added to what is denied and what is allowed.  Only rules that
name hosts open a host. -/
def addHostRule (services : ForwardService × ForwardService) (rule : AclRule) :
    ForwardService × ForwardService :=
  match rule.action with
  | .deny => (services.1.merge (ruleService rule), services.2)
  | .allow =>
    if !rule.dstHosts.isEmpty then (services.1, services.2.merge (ruleService rule)) else services

/-- What the rules deny and allow the client at a named host. -/
def hostServices (name : String) : ForwardService × ForwardService :=
  (acl.rules.filter fun rule =>
    acl.ruleMatches rule client.subject hostSubject none none (some name)).foldl
      addHostRule ({}, {})

def clientEntry (sources : List String) (destination : String) (service : ForwardService) :
    ForwardRule where
  client := client.id
  sources := sources
  destination := destination
  service := service

/-- The named hosts that lie in a grant, with the services denied and allowed there. -/
def routedHosts (grants : List (String × ForwardService)) :
    List (String × ForwardService × ForwardService) :=
  acl.hosts.filterMap fun (name, value) =>
    (hostCidr value).bind fun host =>
      if grants.any fun grant => cidrWithin host grant.1 then
        some (host, hostServices acl client name)
      else none

/-- The deny entries: ungranted carried prefixes for an exit client, then named hosts. -/
def denyEntries (sources : List String) (grants : List (String × ForwardService)) :
    List ForwardRule :=
  let exits := grants.any fun grant => isDefaultRoute grant.1
  let ungranted := (carried distribution router).filter fun route => (grants.lookup route).isNone
  (if exits then ungranted.map fun route => clientEntry client sources route .everything else []) ++
    ((routedHosts acl client grants).filter fun host => !host.2.1.isEmpty).map
      fun host => clientEntry client sources host.1 host.2.1

/-- The allow entries: named hosts inside a grant that is no exit route, then the grants, with
an exit route as its complement around the carried prefixes. -/
def allowEntries (sources : List String) (grants : List (String × ForwardService)) :
    List ForwardRule :=
  let privately := fun host : String =>
    grants.any fun grant => !isDefaultRoute grant.1 && cidrWithin host grant.1
  (((routedHosts acl client grants).filter fun host => !host.2.2.isEmpty && privately host.1).map
      fun host => clientEntry client sources host.1 host.2.2) ++
    grants.flatMap fun grant =>
      if isDefaultRoute grant.1 then
        (complement grant.1 (carried distribution router)).map
          fun part => clientEntry client sources part grant.2
      else [clientEntry client sources grant.1 grant.2]

/-- The client's entries added to a filter. -/
def compileClient (filter : ForwardFilter) : ForwardFilter :=
  if client.id = router.id || !acl.allows now client.subject router.subject then filter
  else
    let sources := hostAddresses client.overlay
    if sources.isEmpty then filter
    else
      let grants := grants acl distribution router client
      if grants.isEmpty then filter
      else
        { deny := filter.deny ++ denyEntries acl distribution router client sources grants
          allow := filter.allow ++ allowEntries acl distribution router client sources grants }

end Compile

end BlakTail.Forwarding
