import BlakTail.Access.Faithful
import BlakTail.Forwarding.Complement

/-!
# What a Compiled Filter Forwards

A client is given prefixes: those approved on the router and those of resources it may use, the
default routes only if it chose the router as its exit node.  `forwards_iff` says what the
compiled filter makes of a flow in terms of what is given, of the prefixes the router carries
and of the policy's named hosts:

From it follow what an exit choice changes, what an exit client can reach, and when host deny
rules win.
-/

namespace BlakTail.Forwarding

open Foundation Addressing Access Control

/-! ## Services -/

namespace ForwardService

theorem coversPort_iff {specs : List String} {port : Option Nat} :
    coversPort specs port ↔ ∃ spec ∈ specs, ∀ n ∈ port, specCovers spec n := by
  cases port with
  | none =>
    cases specs with
    | nil | cons spec specs => simp [coversPort]
  | some n => simp [coversPort, specsCover]

theorem coversPort_union (left right : List String) (port : Option Nat) :
    coversPort (extendText [] (left ++ right)) port =
      (coversPort left port || coversPort right port) := by
  rw [Bool.eq_iff_iff, Bool.or_eq_true]
  simp only [coversPort_iff, mem_extendText, List.not_mem_nil, false_or, List.mem_append,
    or_and_right, exists_or]

@[simp] theorem carries_default (traffic : Traffic) :
    ({} : ForwardService).carries traffic = false := by
  cases traffic with
  | other => rfl
  | asked protocol port =>
    have hnone : coversPort [] port = false := by cases port <;> rfl
    cases protocol with
    | none => simp [carries, admits, hnone]
    | some protocol => cases protocol <;> simp [carries, admits, hnone]

@[simp] theorem carries_everything (traffic : Traffic) : everything.carries traffic := by
  cases traffic with
  | other => rfl
  | asked protocol port => simp [carries, admits, everything]

/-- A merged service admits what one of the two admits. -/
theorem carries_merge (a b : ForwardService) (traffic : Traffic) :
    (a.merge b).carries traffic = (a.carries traffic || b.carries traffic) := by
  unfold merge
  split
  · next hall =>
    rw [carries_everything]
    rcases Bool.or_eq_true_iff.mp hall with h | h
    · cases traffic <;> simp [carries, admits, h]
    · cases traffic <;> simp [carries, admits, h]
  · next hnot =>
    obtain ⟨ha, hb⟩ : a.all = false ∧ b.all = false := by simpa using hnot
    cases traffic with
    | other => simp [carries, ha, hb]
    | asked protocol port =>
      cases protocol with
      | none =>
        simp only [carries, admits, ha, hb, Bool.false_or, coversPort_union]
        cases coversPort a.tcp port <;> cases coversPort a.udp port <;>
          cases coversPort b.tcp port <;> cases coversPort b.udp port <;> cases port.isNone <;> simp
      | some protocol => cases protocol <;> simp [carries, admits, ha, hb, coversPort_union]

/-- An empty service admits nothing. -/
theorem carries_of_isEmpty {service : ForwardService}
    (h : service.isEmpty) (traffic : Traffic) :
    service.carries traffic = false := by
  have hdefault : service = {} := by
    cases service with
    | mk all tcp udp icmp =>
      obtain ⟨hall, hicmp, htcp, hudp⟩ :
          all = false ∧ icmp = false ∧ tcp = [] ∧ udp = [] := by
        simpa [isEmpty, and_assoc] using h
      rw [hall, hicmp, htcp, hudp]
  rw [hdefault, carries_default]

theorem not_isEmpty_of_carries {service : ForwardService}
    {traffic : Traffic} (h : service.carries traffic) :
    (!service.isEmpty) := by
  cases hempty : service.isEmpty with
  | false => rfl
  | true => rw [carries_of_isEmpty hempty traffic] at h; cases h

end ForwardService

open ForwardService

/-! ## What is given -/

section Given

variable (acl : Acl) (distribution : Distribution) (router : RouterView) (client : ClientView)
  {key : String}

/-- A distributed route of the router that the client may use, as far as the exit choice does
not decide. -/
def Usable (route : ActiveRoute) : Prop :=
  route.router = router.id ∧ client.id ∉ route.routingPeers ∧
    route.access.selects client.subject acl.groups

/-- The prefix is there for the client to have: approved on the router, or of a resource the
client may use. -/
def Offered (key : String) : Prop :=
  key ∈ router.approved ∨
    ∃ route ∈ distribution.routes, Usable acl router client route ∧ route.cidr = key

/-- The prefix is offered for this traffic. -/
def OfferedFor (key : String) (traffic : Traffic) : Prop :=
  key ∈ router.approved ∨
    ∃ route ∈ distribution.routes, Usable acl router client route ∧ route.cidr = key ∧
      route.service.carries traffic

/-- The client may reach the prefix through the router: it is offered, and default routes need
the exit choice. -/
def Given (key : String) : Prop :=
  (isDefaultRoute key → router.selectedBy client.exitRequest) ∧
    Offered acl distribution router client key

/-- The prefix is given for this traffic. -/
def GivenFor (key : String) (traffic : Traffic) : Prop :=
  (isDefaultRoute key → router.selectedBy client.exitRequest) ∧
    OfferedFor acl distribution router client key traffic

/-- A prefix that is no default route and that the router carries or could carry: approved,
advertised, distributed through it, or of a resource that lists it. -/
def Carries (key : String) : Prop :=
  isDefaultRoute key = false ∧ (key ∈ router.approved ∨ key ∈ router.advertised ∨
    (∃ route ∈ distribution.routes, route.router = router.id ∧ route.cidr = key) ∨
    ∃ peers, (key, peers) ∈ distribution.reserved ∧ router.id ∈ peers)

variable {acl distribution router client}

theorem mem_reservedFor : key ∈ distribution.reservedFor router.id ↔
    (∃ route ∈ distribution.routes, route.router = router.id ∧ route.cidr = key) ∨
      ∃ peers, (key, peers) ∈ distribution.reserved ∧ router.id ∈ peers := by
  unfold Distribution.reservedFor Distribution.carriedBy
  rw [List.mem_append, List.mem_map, List.mem_map]
  refine or_congr ?_ ?_
  · simp only [List.mem_filter, decide_eq_true_eq, and_assoc]
  · constructor
    · rintro ⟨⟨key', peers⟩, hmem, rfl⟩
      obtain ⟨hmem, hpeers⟩ := List.mem_filter.mp hmem
      exact ⟨peers, hmem, List.contains_iff_mem.mp hpeers⟩
    · rintro ⟨peers, hmem, hpeers⟩
      exact ⟨(key, peers), List.mem_filter.mpr ⟨hmem, List.contains_iff_mem.mpr hpeers⟩, rfl⟩

theorem mem_carried : key ∈ carried distribution router ↔ Carries distribution router key := by
  unfold carried Carries
  rw [mem_extendText, List.mem_filter, List.mem_append, List.mem_append, mem_reservedFor,
    Bool.not_eq_true', or_assoc]
  simp only [List.not_mem_nil, false_or]
  exact and_comm

/-! ## Grants -/

/-- The map leads the key to a service that carries the traffic. -/
def Holds (grants : List (String × ForwardService)) (key : String) (traffic : Traffic) : Prop :=
  ∃ service, grants.lookup key = some service ∧ service.carries traffic

theorem addGrant_holds (grants : List (String × ForwardService)) (grant : String × ForwardService)
    (key : String) (traffic : Traffic) : Holds (addGrant grants grant) key traffic ↔
      Holds grants key traffic ∨ (grant.1 = key ∧ grant.2.carries traffic) := by
  unfold Holds addGrant
  rw [lookup_insertKey]
  by_cases hkey : key = grant.1
  · subst hkey
    simp only [if_true, Option.some.injEq, exists_eq_left', carries_merge,
      Bool.or_eq_true, true_and]
    cases grants.lookup grant.1 with
    | none | some service => simp
  · have hkey' : ¬ grant.1 = key := fun h => hkey h.symm
    simp [hkey, hkey']

theorem addGrant_isSome (grants : List (String × ForwardService)) (grant : String × ForwardService)
    (key : String) : ((addGrant grants grant).lookup key).isSome ↔
      (grants.lookup key).isSome ∨ grant.1 = key := by
  unfold addGrant
  rw [lookup_insertKey]
  by_cases hkey : key = grant.1
  · simp [hkey]
  · have hkey' : ¬ grant.1 = key := fun h => hkey h.symm
    simp [hkey, hkey']

/-- The approved routes, each for everything. -/
theorem lookup_approved (routes : List String) (key : String) :
    (routes.foldl (fun grants route => insertKey route everything grants) []).lookup
        key = if key ∈ routes then some .everything else none := by
  have hfold : ∀ (grants : List (String × ForwardService)),
      (routes.foldl (fun grants route => insertKey route everything grants)
        grants).lookup key = if key ∈ routes then some .everything else grants.lookup key := by
    induction routes with
    | nil => intro grants; simp
    | cons route routes ih =>
      intro grants
      rw [List.foldl_cons, ih, lookup_insertKey]
      by_cases hroutes : key ∈ routes
      · simp [hroutes]
      · by_cases hroute : key = route
        · simp [hroute]
        · simp [hroutes, hroute]
  exact hfold []

theorem mem_grantsVia {exit : Bool} {grant : String × ForwardService} :
    grant ∈ distribution.grantsVia router.id client.id client.subject acl exit ↔
      ∃ route ∈ distribution.routes, Usable acl router client route ∧
        (isDefaultRoute route.cidr → exit) ∧ (route.cidr, route.service) = grant := by
  unfold Distribution.grantsVia Distribution.usable Usable
  simp only [List.mem_map, List.mem_filter, Bool.and_eq_true, decide_eq_true_eq,
    Bool.not_eq_true', Bool.or_eq_true, and_assoc]
  refine exists_congr fun route => and_congr_right fun _ => and_congr_right fun _ => ?_
  rw [← Bool.not_eq_true (route.routingPeers.contains client.id), List.contains_iff_mem]
  have himp : (isDefaultRoute route.cidr = false ∨ exit) ↔
      (isDefaultRoute route.cidr → exit) := by
    cases isDefaultRoute route.cidr <;> simp
  rw [himp]
  exact and_congr_right fun _ => and_left_comm

/-- An approved route is kept unless it is a default route without the exit choice. -/
theorem mem_approved_kept {exit : Bool} :
    key ∈ router.approved.filter (fun route => !isDefaultRoute route || exit) ↔
      (isDefaultRoute key → exit) ∧ key ∈ router.approved := by
  rw [List.mem_filter, and_comm]
  cases isDefaultRoute key <;> simp

theorem grants_isSome :
    ((grants acl distribution router client).lookup key).isSome ↔
      Given acl distribution router client key := by
  unfold grants Given Offered
  rw [foldl_adds (P := fun grants => (grants.lookup key).isSome)
    (Q := fun grant => grant.1 = key) (fun grants grant => addGrant_isSome grants grant key),
    lookup_approved, and_or_left, ← mem_approved_kept]
  refine or_congr ?_ ?_
  · split
    · next hmem => simp [hmem]
    · next hmem => simp [hmem]
  · simp only [mem_grantsVia]
    constructor
    · rintro ⟨grant, ⟨route, hroute, husable, hexit, rfl⟩, rfl⟩
      exact ⟨hexit, route, hroute, husable, rfl⟩
    · rintro ⟨hexit, route, hroute, husable, rfl⟩
      exact ⟨_, ⟨route, hroute, husable, hexit, rfl⟩, rfl⟩

theorem grants_holds {traffic : Traffic} :
    Holds (grants acl distribution router client) key traffic ↔
      GivenFor acl distribution router client key traffic := by
  unfold grants GivenFor OfferedFor
  rw [foldl_adds (P := fun grants => Holds grants key traffic)
    (Q := fun grant => grant.1 = key ∧ grant.2.carries traffic)
    (fun grants grant => addGrant_holds grants grant key traffic), and_or_left,
    ← mem_approved_kept]
  refine or_congr ?_ ?_
  · unfold Holds
    rw [lookup_approved]
    split
    · next hmem => simp [hmem]
    · next hmem => simp [hmem]
  · simp only [mem_grantsVia]
    constructor
    · rintro ⟨grant, ⟨route, hroute, husable, hexit, rfl⟩, rfl, hcarries⟩
      exact ⟨hexit, route, hroute, husable, rfl, hcarries⟩
    · rintro ⟨hexit, route, hroute, husable, rfl, hcarries⟩
      exact ⟨_, ⟨route, hroute, husable, hexit, rfl⟩, rfl, hcarries⟩

theorem grants_ascend : KeysAscend (grants acl distribution router client) := by
  show KeysAscend (run addGrant
      (run (fun grants route => insertKey route .everything grants) [] _) _)
  apply run_invariant
  · exact fun grants grant h => insertBy_ascending _ h
  · apply run_invariant
    · exact fun grants route h => insertBy_ascending _ h
    · exact List.Pairwise.nil

/-- A property of keys holds of some grant exactly if it holds of a given prefix. -/
theorem exists_grant {P : String → Prop} :
    (∃ grant ∈ grants acl distribution router client, P grant.1) ↔
      ∃ key, Given acl distribution router client key ∧ P key := by
  constructor
  · rintro ⟨⟨key, service⟩, hmem, hP⟩
    refine ⟨key, grants_isSome.mp ?_, hP⟩
    rw [grants_ascend.mem_iff.mp hmem]
    rfl
  · rintro ⟨key, hgiven, hP⟩
    obtain ⟨service, hservice⟩ := Option.isSome_iff_exists.mp (grants_isSome.mpr hgiven)
    exact ⟨(key, service), grants_ascend.mem_iff.mpr hservice, hP⟩

theorem any_grant (test : String → Bool) :
    ((grants acl distribution router client).any fun grant => test grant.1) ↔
      ∃ key, Given acl distribution router client key ∧ test key := by
  rw [List.any_eq_true]
  exact exists_grant (P := fun key => test key)

theorem exists_grant_carries {P : String → Prop} {traffic : Traffic} :
    (∃ grant ∈ grants acl distribution router client, P grant.1 ∧ grant.2.carries traffic) ↔
      ∃ key, GivenFor acl distribution router client key traffic ∧ P key := by
  constructor
  · rintro ⟨⟨key, service⟩, hmem, hP, hcarries⟩
    exact ⟨key, grants_holds.mp ⟨service, grants_ascend.mem_iff.mp hmem, hcarries⟩, hP⟩
  · rintro ⟨key, hgiven, hP⟩
    obtain ⟨service, hservice, hcarries⟩ := grants_holds.mpr hgiven
    exact ⟨(key, service), grants_ascend.mem_iff.mpr hservice, hP, hcarries⟩

end Given

/-! ## Named hosts -/

section Hosts

variable (acl : Acl) (distribution : Distribution) (router : RouterView) (client : ClientView)
  {traffic : Traffic} {sources : List String} {source host : String}

/-- A rule of the policy that matches the client and the named host, whatever the port and
protocol. -/
def HostRule (action : Action) (name : String) (rule : AclRule) : Prop :=
  rule ∈ acl.rules ∧ rule.action = action ∧
    acl.ruleMatches rule client.subject hostSubject none none (some name)

/-- A named host that holds the destination, as a prefix. -/
def Names (host name named : String) : Prop :=
  ∃ value, (name, value) ∈ acl.hosts ∧ hostCidr value = some named ∧ cidrWithin host named

/-- The destination is in a named host that lies in a given prefix and that a rule denies. -/
def HostDenied (host : String) (traffic : Traffic) : Prop :=
  ∃ name named, Names acl host name named ∧
    (∃ key, Given acl distribution router client key ∧ cidrWithin named key) ∧
    ∃ rule, HostRule acl client .deny name rule ∧ (ruleService rule).carries traffic

/-- The destination is in a named host that lies in a given prefix, not counting exit routes,
and that a rule naming hosts allows. -/
def HostAllowed (host : String) (traffic : Traffic) : Prop :=
  ∃ name named, Names acl host name named ∧
    (∃ key, Given acl distribution router client key ∧
      (isDefaultRoute key = false ∧ cidrWithin named key)) ∧
    ∃ rule, HostRule acl client .allow name rule ∧ rule.dstHosts ≠ [] ∧
      (ruleService rule).carries traffic

/-- The destination is in a carried prefix that an exit client is not given. -/
def ExitDenied (host : String) : Prop :=
  (∃ key, Given acl distribution router client key ∧ isDefaultRoute key) ∧
    ∃ key, Carries distribution router key ∧ ¬ Given acl distribution router client key ∧
      cidrWithin host key

/-- The destination is in a prefix given for the traffic, not counting exit routes. -/
def Granted (host : String) (traffic : Traffic) : Prop :=
  ∃ key, GivenFor acl distribution router client key traffic ∧
    (isDefaultRoute key = false ∧ cidrWithin host key)

/-- The exit route is given for the traffic, and the destination is apart from all that the
router carries. -/
def ByExit (host : String) (traffic : Traffic) : Prop :=
  (∃ key, GivenFor acl distribution router client key traffic ∧
      (isDefaultRoute key ∧ cidrWithin host key)) ∧
    ∀ key, Carries distribution router key → cidrsOverlap host key = false

variable {acl distribution router client} {traffic : Traffic}

variable (services : ForwardService × ForwardService)

theorem addHostRule_denied (rule : AclRule) (traffic : Traffic) :
    (addHostRule services rule).1.carries traffic ↔
      services.1.carries traffic ∨
        (rule.action = .deny ∧ (ruleService rule).carries traffic) := by
  unfold addHostRule
  cases rule.action with
  | deny => simp [carries_merge]
  | allow =>
    dsimp only
    split <;> simp

theorem addHostRule_allowed (rule : AclRule) (traffic : Traffic) :
    (addHostRule services rule).2.carries traffic ↔
      services.2.carries traffic ∨
        (rule.action = .allow ∧ rule.dstHosts ≠ [] ∧
          (ruleService rule).carries traffic) := by
  unfold addHostRule
  cases rule.action with
  | deny => simp
  | allow =>
    cases rule.dstHosts with
    | nil => simp
    | cons named more => simp [carries_merge]

theorem hostServices_denied {name : String} :
    (hostServices acl client name).1.carries traffic ↔
      ∃ rule, HostRule acl client .deny name rule ∧ (ruleService rule).carries traffic := by
  unfold hostServices HostRule
  rw [foldl_adds (P := fun services : ForwardService × ForwardService =>
      services.1.carries traffic)
    (Q := fun rule => rule.action = .deny ∧ (ruleService rule).carries traffic)
    (fun services rule => addHostRule_denied services rule traffic)]
  simp only [carries_default, Bool.false_eq_true, false_or, List.mem_filter]
  refine exists_congr fun rule => ?_
  tauto

theorem hostServices_allowed {name : String} :
    (hostServices acl client name).2.carries traffic ↔
      ∃ rule, HostRule acl client .allow name rule ∧ rule.dstHosts ≠ [] ∧
        (ruleService rule).carries traffic := by
  unfold hostServices HostRule
  rw [foldl_adds (P := fun services : ForwardService × ForwardService =>
      services.2.carries traffic)
    (Q := fun rule => rule.action = .allow ∧ rule.dstHosts ≠ [] ∧
      (ruleService rule).carries traffic)
    (fun services rule => addHostRule_allowed services rule traffic)]
  simp only [carries_default, Bool.false_eq_true, false_or, List.mem_filter]
  refine exists_congr fun rule => ?_
  tauto

/-- The named hosts that hold the destination and lie in a given prefix. -/
theorem exists_routedHost {host : String} {P : String → ForwardService × ForwardService → Prop} :
    (∃ routed ∈ routedHosts acl client (grants acl distribution router client),
        cidrWithin host routed.1 ∧ P routed.1 routed.2) ↔
      ∃ name named, Names acl host name named ∧
        (∃ key, Given acl distribution router client key ∧ cidrWithin named key) ∧
        P named (hostServices acl client name) := by
  unfold routedHosts Names
  simp only [List.mem_filterMap, Option.bind_eq_some_iff, Option.ite_none_right_eq_some,
    any_grant, Option.some.injEq]
  constructor
  · rintro ⟨_, ⟨⟨name, value⟩, hmem, named, hnamed, hgiven, rfl⟩, hwithin, hP⟩
    exact ⟨name, named, ⟨value, hmem, hnamed, hwithin⟩, hgiven, hP⟩
  · rintro ⟨name, named, ⟨value, hmem, hnamed, hwithin⟩, hgiven, hP⟩
    exact ⟨_, ⟨(name, value), hmem, named, hnamed, hgiven, rfl⟩, hwithin, hP⟩

/-! ## The entries -/

/-- One of the rules lists the source and holds the destination with a service that carries
the traffic. -/
def Lists (rules : List ForwardRule) (source host : String) (traffic : Traffic) : Prop :=
  ∃ rule ∈ rules, source ∈ rule.sources ∧ cidrWithin host rule.destination ∧
    rule.service.carries traffic

theorem lists_append {left right : List ForwardRule} {source host : String} :
    Lists (left ++ right) source host traffic ↔
      Lists left source host traffic ∨ Lists right source host traffic := by
  unfold Lists
  simp only [List.mem_append, or_and_right, exists_or]

theorem forwards_iff_lists {filter : ForwardFilter} {source host : String} :
    filter.forwards source host traffic ↔
      ¬ Lists filter.deny source host traffic ∧ Lists filter.allow source host traffic := by
  have hany : ∀ rules : List ForwardRule,
      (((rules.filter fun rule => rule.sources.contains source).filter
        fun rule => cidrWithin host rule.destination).any
          fun rule => rule.service.carries traffic) ↔ Lists rules source host traffic := by
    intro rules
    unfold Lists
    simp only [List.any_eq_true, List.mem_filter, List.contains_iff_mem, and_assoc]
  unfold ForwardFilter.forwards ForwardFilter.admits ForwardFilter.ofSource
  dsimp only
  rw [← hany filter.deny, ← hany filter.allow]
  split
  · next hdenied => exact iff_of_false Bool.false_ne_true fun h => h.1 hdenied
  · next hdenied => exact (and_iff_right hdenied).symm

theorem denyEntries_lists :
    Lists (denyEntries acl distribution router client sources
        (grants acl distribution router client)) source host traffic ↔
      source ∈ sources ∧ (ExitDenied acl distribution router client host ∨
        HostDenied acl distribution router client host traffic) := by
  unfold denyEntries
  rw [lists_append, and_or_left]
  refine or_congr ?_ ?_
  · -- the carried prefixes that are not given
    unfold ExitDenied
    rw [← any_grant]
    split
    · next hexits =>
      simp only [hexits, true_and, Lists, List.mem_map, List.mem_filter, mem_carried,
        Option.isNone_iff_eq_none, ← grants_isSome, Option.isSome_iff_ne_none, ne_eq, not_not]
      constructor
      · rintro ⟨_, ⟨key, ⟨hcarries, hnone⟩, rfl⟩, hsource, hwithin, -⟩
        exact ⟨hsource, key, hcarries, hnone, hwithin⟩
      · rintro ⟨hsource, key, hcarries, hnone, hwithin⟩
        exact ⟨_, ⟨key, ⟨hcarries, hnone⟩, rfl⟩, hsource, hwithin,
          carries_everything traffic⟩
    · next hexits =>
      have hnone : ¬ Lists [] source host traffic := fun ⟨_, hmem, _⟩ => List.not_mem_nil hmem
      exact iff_of_false hnone fun h => hexits h.2.1
  · -- the named hosts
    unfold HostDenied Lists
    simp only [← hostServices_denied]
    rw [← exists_routedHost (P := fun _ services => services.1.carries traffic)]
    simp only [List.mem_map, List.mem_filter]
    constructor
    · rintro ⟨_, ⟨routed, ⟨hrouted, -⟩, rfl⟩, hsource, hwithin, hcarries⟩
      exact ⟨hsource, routed, hrouted, hwithin, hcarries⟩
    · rintro ⟨hsource, routed, hrouted, hwithin, hcarries⟩
      refine ⟨_, ⟨routed, ⟨hrouted, ?_⟩, rfl⟩, hsource, hwithin, hcarries⟩
      exact not_isEmpty_of_carries hcarries

/-- A grant's entries: itself, or an exit route's complement around the carried prefixes. -/
theorem grantEntries_lists {grant : String × ForwardService} :
    Lists (if isDefaultRoute grant.1 then
          (complement grant.1 (carried distribution router)).map
            fun part => clientEntry client sources part grant.2
        else [clientEntry client sources grant.1 grant.2]) source host traffic ↔
      source ∈ sources ∧
        (((isDefaultRoute grant.1 = false ∧ cidrWithin host grant.1) ∧
            grant.2.carries traffic) ∨
          ((isDefaultRoute grant.1 ∧ cidrWithin host grant.1) ∧
            grant.2.carries traffic) ∧
            ∀ key, Carries distribution router key → cidrsOverlap host key = false) := by
  unfold Lists
  split
  · next hdefault =>
    have hparts : (∃ part ∈ complement grant.1 (carried distribution router),
        cidrWithin host part) ↔ cidrWithin host grant.1 ∧
          ∀ key, Carries distribution router key → cidrsOverlap host key = false := by
      rw [complement_iff hdefault]
      simp only [mem_carried]
    simp only [hdefault, Bool.true_eq_false, false_and, false_or, true_and, List.mem_map]
    constructor
    · rintro ⟨_, ⟨part, hpart, rfl⟩, hsource, hwithin, hcarries⟩
      obtain ⟨hroute, hapart⟩ := hparts.mp ⟨part, hpart, hwithin⟩
      exact ⟨hsource, ⟨hroute, hcarries⟩, hapart⟩
    · rintro ⟨hsource, ⟨hroute, hcarries⟩, hapart⟩
      obtain ⟨part, hpart, hwithin⟩ := hparts.mpr ⟨hroute, hapart⟩
      exact ⟨_, ⟨part, hpart, rfl⟩, hsource, hwithin, hcarries⟩
  · next hplain =>
    have hplain' : isDefaultRoute grant.1 = false := by simpa using hplain
    simp only [hplain', Bool.false_eq_true, false_and, or_false, true_and, List.mem_singleton,
      exists_eq_left, clientEntry]

theorem allowEntries_lists :
    Lists (allowEntries acl distribution router client sources
        (grants acl distribution router client)) source host traffic ↔
      source ∈ sources ∧ (HostAllowed acl distribution router client host traffic ∨
        Granted acl distribution router client host traffic ∨
        ByExit acl distribution router client host traffic) := by
  unfold allowEntries
  rw [lists_append, and_or_left]
  refine or_congr ?_ ?_
  · -- the named hosts
    unfold HostAllowed Lists
    simp only [← hostServices_allowed, List.mem_map, List.mem_filter, Bool.and_eq_true]
    have hprivate : ∀ named : String,
        ((grants acl distribution router client).any fun grant =>
          !isDefaultRoute grant.1 && cidrWithin named grant.1) ↔
        ∃ key, Given acl distribution router client key ∧
          (isDefaultRoute key = false ∧ cidrWithin named key) := by
      intro named
      rw [any_grant fun key => !isDefaultRoute key && cidrWithin named key]
      simp only [Bool.and_eq_true, Bool.not_eq_true']
    have hhosts := @exists_routedHost acl distribution router client host fun named services =>
      (∃ key, Given acl distribution router client key ∧
        (isDefaultRoute key = false ∧ cidrWithin named key)) ∧ services.2.carries traffic
    constructor
    · rintro ⟨_, ⟨routed, ⟨hrouted, -, hopen⟩, rfl⟩, hsource, hwithin, hcarries⟩
      obtain ⟨name, named, hnames, -, hopen, hcarries⟩ :=
        hhosts.mp ⟨routed, hrouted, hwithin, (hprivate routed.1).mp hopen, hcarries⟩
      exact ⟨hsource, name, named, hnames, hopen, hcarries⟩
    · rintro ⟨hsource, name, named, hnames, ⟨key, hgiven, hplain, hkey⟩, hcarries⟩
      obtain ⟨routed, hrouted, hwithin, hopen, hcarries⟩ := hhosts.mpr
        ⟨name, named, hnames, ⟨key, hgiven, hkey⟩, ⟨key, hgiven, hplain, hkey⟩, hcarries⟩
      exact ⟨_, ⟨routed, ⟨hrouted, not_isEmpty_of_carries hcarries,
        (hprivate routed.1).mpr hopen⟩, rfl⟩, hsource, hwithin, hcarries⟩
  · -- the grants themselves
    unfold Granted ByExit
    rw [← exists_grant_carries, ← exists_grant_carries]
    constructor
    · rintro ⟨entry, hentry, hlisted⟩
      obtain ⟨grant, hgrant, hentry⟩ := List.mem_flatMap.mp hentry
      obtain ⟨hsource, hplain | ⟨hexit, hapart⟩⟩ := grantEntries_lists.mp ⟨entry, hentry, hlisted⟩
      · exact ⟨hsource, .inl ⟨grant, hgrant, hplain⟩⟩
      · exact ⟨hsource, .inr ⟨⟨grant, hgrant, hexit⟩, hapart⟩⟩
    · rintro ⟨hsource, ⟨grant, hgrant, hplain⟩ | ⟨⟨grant, hgrant, hexit⟩, hapart⟩⟩
      · obtain ⟨entry, hentry, hlisted⟩ := grantEntries_lists.mpr ⟨hsource, .inl hplain⟩
        exact ⟨entry, List.mem_flatMap.mpr ⟨grant, hgrant, hentry⟩, hlisted⟩
      · obtain ⟨entry, hentry, hlisted⟩ := grantEntries_lists.mpr ⟨hsource, .inr ⟨hexit, hapart⟩⟩
        exact ⟨entry, List.mem_flatMap.mpr ⟨grant, hgrant, hentry⟩, hlisted⟩

/-- The router forwards for the client at all: another device, which policy lets reach the
router. -/
def Served (acl : Acl) (now : Int) (router : RouterView) (client : ClientView) : Prop :=
  client.id ≠ router.id ∧ acl.allows now client.subject router.subject

/-- The early returns of the compiler change nothing: without sources or grants the entries
list nothing. -/
theorem forwards_iff_entries {now : Int} :
    (compileClient acl now distribution router client {}).forwards source host traffic ↔
      Served acl now router client ∧
        ¬ Lists (denyEntries acl distribution router client (hostAddresses client.overlay)
            (grants acl distribution router client)) source host traffic ∧
        Lists (allowEntries acl distribution router client (hostAddresses client.overlay)
            (grants acl distribution router client)) source host traffic := by
  have hempty : ¬ ({} : ForwardFilter).forwards source host traffic := Bool.false_ne_true
  unfold compileClient
  dsimp only
  split
  · next hrefused =>
    refine iff_of_false hempty fun h => ?_
    obtain ⟨⟨hid, hallows⟩, -⟩ := h
    simp [hid, hallows] at hrefused
  next hserved =>
  have hserved' : Served acl now router client := by
    simpa [Served] using hserved
  rw [and_iff_right hserved']
  split
  · next hsources =>
    refine iff_of_false hempty fun h => ?_
    rw [List.isEmpty_iff.mp hsources] at h
    exact List.not_mem_nil (allowEntries_lists.mp h.2).1
  split
  · next hgrants =>
    refine iff_of_false hempty fun h => ?_
    rw [List.isEmpty_iff.mp hgrants] at h
    obtain ⟨-, entry, hentry, -⟩ := h
    simp [allowEntries, routedHosts] at hentry
  · exact forwards_iff_lists

/-- What the compiled filter makes of a flow. -/
theorem forwards_iff {now : Int} :
    (compileClient acl now distribution router client {}).forwards source host traffic ↔
      Served acl now router client ∧ source ∈ hostAddresses client.overlay ∧
        ¬ ExitDenied acl distribution router client host ∧
        ¬ HostDenied acl distribution router client host traffic ∧
        (HostAllowed acl distribution router client host traffic ∨
          Granted acl distribution router client host traffic ∨
          ByExit acl distribution router client host traffic) := by
  rw [forwards_iff_entries, denyEntries_lists, allowEntries_lists]
  tauto

end Hosts

end BlakTail.Forwarding
