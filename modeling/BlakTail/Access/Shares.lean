import BlakTail.Access.Faithful
import BlakTail.Access.Validate

/-!
# Share Ports

A device may publish folders over one TCP port, and a peer that may see them needs that
port.  `list_peers` compiles, for the device that asks, what each peer may send to it,
and adds share ports to the result.

The row for a peer adds the ports of the peer's own shares, as the asking device sees
them, to what the peer may send to the asking device.  `rowIngress_admits` states the
result for every document and every two share lists, and `sharePortsExact_iff` says when
it is what it is for: the ports of the asking device's shares.
-/

namespace BlakTail.Access

open Foundation

/-- One folder a device publishes. -/
structure NodeShare where
  label : String
  path : String := ""
  port : UInt16 := 5647
  readOnly : Bool := true
  enabled : Bool := true
  deriving DecidableEq

/-! ## Who may see a share -/

/-- A device as the drive section sees it. -/
structure DriveActor where
  role : String
  tags : List String
  userId : String
  email : String

def driveActor (subject : Subject) : DriveActor where
  role := subject.role.asStr
  tags := subject.tags.map DeviceTag.asStr
  userId := subject.userId
  email := subject.email

/-- The actor is one of the listed people. -/
def actorInGroup (actor : DriveActor) (members : List String) : Bool :=
  members.any fun member =>
    let member := Text.trim member
    member != "" &&
      ((actor.userId != "" && Text.eqIgnoreAsciiCase member (Text.trim actor.userId)) ||
        (actor.email != "" && Text.eqIgnoreAsciiCase member (Text.trim actor.email)))

def actorPermitted (selectors : List String) (actor : DriveActor) (groups : Groups) : Bool :=
  selectors.any fun selector =>
    let selector := Text.trim selector
    if selector = "*" then true
    else match Text.stripPrefix "tag:" selector with
      | some tag => actor.tags.any fun held => Text.eqIgnoreAsciiCase held (Text.trim tag)
      | none => match Text.stripPrefix "group:" selector with
        | some group => match groups.lookup (Text.trim group) with
          | some members => actorInGroup actor members
          | none => false
        | none => Text.eqIgnoreAsciiCase selector (Text.trim actor.role)

/-- One side of a grant names the actor; an empty part names everybody. -/
def sideMatches (roles tags groupNames : List String) (actor : DriveActor) (groups : Groups) :
    Bool :=
  (roles.isEmpty || roles.any fun role => Text.eqIgnoreAsciiCase role actor.role) &&
    (tags.isEmpty || tags.any fun tag =>
      actor.tags.any fun held => Text.eqIgnoreAsciiCase held tag) &&
    (groupNames.isEmpty || groupNames.any fun name =>
      match groups.lookup name with
      | some members => actorInGroup actor members
      | none => false)

/-- The grant names the pair and the share. -/
def grantMatches (grant : DriveGrant) (groups : Groups) (source destination : DriveActor)
    (label : String) : Bool :=
  !(grant.sameUser && (source.userId = "" ||
      !Text.eqIgnoreAsciiCase source.userId (Text.trim destination.userId))) &&
    sideMatches grant.srcRoles grant.srcTags grant.srcGroups source groups &&
    sideMatches grant.dstRoles grant.dstTags grant.dstGroups destination groups &&
    grant.shares.any fun name =>
      name = "*" || match canonicalLabel name with
        | .ok canonical => canonical = label
        | .error _ => false

inductive ShareAccess where
  | ro
  | rw
  deriving DecidableEq

/-- The widest matching grant; a read-only share caps `rw` at `ro`. -/
def grantAccess (policy : DrivePolicy) (groups : Groups) (source destination : DriveActor)
    (label : String) (readOnly : Bool) : Option ShareAccess :=
  let granting := policy.grants.filter fun grant =>
    grantMatches grant groups source destination label
  if granting.isEmpty then none
  else if (granting.any fun grant => grant.access = "rw") && !readOnly then some .rw
  else some .ro

/-- Whether `share` on `destination` should be opened for `source`.  Without a drive
section every enabled share is. -/
def Acl.driveShareVisible (acl : Acl) (source destination : Subject) (share : NodeShare) : Bool :=
  share.enabled &&
    match acl.drive with
    | none => true
    | some policy =>
      actorPermitted policy.share (driveActor destination) acl.groups &&
        (grantAccess policy acl.groups (driveActor source) (driveActor destination) share.label
          share.readOnly).isSome

/-! ## The row of a peer -/

def NodeShare.portText (share : NodeShare) : String := toString share.port.toNat

/-- Add one share's port unless it is listed as denied or allowed. -/
def grantSharePort (denyTcp tcp : List String) (share : NodeShare) : List String :=
  if denyTcp.contains share.portText || tcp.contains share.portText then tcp
  else tcp ++ [share.portText]

def grantSharePorts (tcp denyTcp : List String) (all : Bool) (shares : List NodeShare) :
    List String :=
  if all then tcp
  else (shares.filter NodeShare.enabled).foldl (grantSharePort denyTcp) tcp

/-- The grant in the row of `destination` that `list_peers` compiles for `source`, the device that
asks, before `service_serving::apply_to_peer_map` adds to the map; nothing where the pair is not
connected. -/
def Acl.rowIngress (acl : Acl) (now : Int) (source destination : Subject)
    (sshUsersEnforced : Bool) (destShares : List NodeShare) : Option PeerIngress :=
  if !acl.allows now source destination then none
  else
    let ingress := acl.peerIngressFor now destination source sshUsersEnforced
    let visibleShares := destShares.filter (acl.driveShareVisible source destination)
    some { ingress with
      tcp := grantSharePorts ingress.tcp ingress.denyTcp ingress.all visibleShares }

/-! ## What a row admits -/

section Rows

variable {port : Nat}

theorem grantSharePort_covers {denyTcp : List String} (hlow : 1 ≤ port)
    (hfree : ¬ specsCover denyTcp port) (tcp : List String) (share : NodeShare) :
    specsCover (grantSharePort denyTcp tcp share) port ↔
      specsCover tcp port ∨ share.port.toNat = port := by
  -- the specification written for a share covers its port alone
  have hself : specCovers share.portText port ↔ share.port.toNat = port :=
    specCovers_toString (Nat.le_of_lt_succ share.port.toNat_lt) hlow
  unfold grantSharePort
  split
  · next hlisted =>
    -- a denied port is not this one, and an allowed one is covered
    refine ⟨.inl, ?_⟩
    rintro (h | hport)
    · exact h
    · rcases Bool.or_eq_true_iff.mp hlisted with hdenied | hallowed
      · exact absurd (specsCover_iff.mpr
          ⟨_, List.contains_iff_mem.mp hdenied, hself.mpr hport⟩) hfree
      · exact specsCover_iff.mpr ⟨_, List.contains_iff_mem.mp hallowed, hself.mpr hport⟩
  · simp [specsCover, hself]

theorem grantSharePorts_covers {tcp denyTcp : List String} {all : Bool} {shares : List NodeShare}
    (hlow : 1 ≤ port) (hfree : ¬ specsCover denyTcp port) :
    all ∨ specsCover (grantSharePorts tcp denyTcp all shares) port ↔
      (all ∨ specsCover tcp port) ∨
        ∃ share ∈ shares, share.enabled ∧ share.port.toNat = port := by
  unfold grantSharePorts
  cases all with
  | true => simp
  | false =>
    rw [if_neg Bool.false_ne_true, foldl_adds
      (P := fun tcp : List String => specsCover tcp port)
      (fun tcp share => grantSharePort_covers hlow hfree tcp share)]
    simp [List.mem_filter, and_assoc]

/-- The peer publishes a share on this port that the asking device sees, and the row
does not deny the port. -/
def Opened (acl : Acl) (now : Int) (source destination : Subject) (sshUsersEnforced : Bool)
    (destShares : List NodeShare) (port : Nat) : Prop :=
  ¬ specsCover (acl.peerIngressFor now destination source sshUsersEnforced).denyTcp port ∧
    ∃ share ∈ destShares, acl.driveShareVisible source destination share ∧
      share.port.toNat = port

/-- The asking device publishes a share on this port that the peer may see, and no rule
denies the peer the port. -/
def Owed (acl : Acl) (source destination : Subject) (sourceShares : List NodeShare)
    (port : Nat) : Prop :=
  (∃ share ∈ sourceShares, acl.driveShareVisible destination source share ∧
      share.port.toNat = port) ∧
    ∀ rule ∈ acl.rules, rule.action = .deny →
      acl.ruleMatches rule destination source (some port) (some .tcp) none = false

/-- What the asking device admits from a peer: what the rules give the peer, and the
ports of the shares the peer publishes. -/
theorem rowIngress_admits {acl : Acl} {now : Int} {source destination : Subject}
    {sshUsersEnforced : Bool} {destShares : List NodeShare} {ingress : PeerIngress}
    (hrow : acl.rowIngress now source destination sshUsersEnforced destShares = some ingress)
    (hlow : 1 ≤ port) :
    ingressAdmits ingress (some .tcp) (some port) ↔
      ingressAdmits (acl.peerIngressFor now destination source sshUsersEnforced) (some .tcp)
          (some port) ∨
        Opened acl now source destination sshUsersEnforced destShares port := by
  unfold Acl.rowIngress at hrow
  split at hrow
  · exact nomatch hrow
  · cases hrow
    rw [Acl.ingressAdmits_tcp, Acl.ingressAdmits_tcp]
    unfold Opened
    rw [← and_or_left]
    refine and_congr_right fun hfree => ?_
    rw [grantSharePorts_covers hlow hfree]
    refine or_congr_right (exists_congr fun share => ?_)
    rw [List.mem_filter, and_assoc]
    refine and_congr_right fun _ => and_congr_right fun hvisible => ?_
    -- a visible share is enabled
    exact and_iff_right (Bool.and_eq_true_iff.mp hvisible).1

/-- The row for a peer admits what the rules give the peer and the ports of the asking
device's own shares that the peer may see, and nothing else. -/
def SharePortsExact (acl : Acl) (now : Int) (source destination : Subject)
    (sshUsersEnforced : Bool) (sourceShares destShares : List NodeShare) : Prop :=
  ∀ ingress, acl.rowIngress now source destination sshUsersEnforced destShares = some ingress →
    ∀ port, 1 ≤ port → port ≤ 65535 →
      (ingressAdmits ingress (some .tcp) (some port) ↔
        ingressAdmits (acl.peerIngressFor now destination source sshUsersEnforced) (some .tcp)
            (some port) ∨
          Owed acl source destination sourceShares port)

/-- The share ports of a row are the right ones exactly where, on every port the rules do
not already open for the peer, what the peer publishes opens what the asking device's own
shares call for. -/
theorem sharePortsExact_iff (acl : Acl) (now : Int) (source destination : Subject)
    (sshUsersEnforced : Bool) (sourceShares destShares : List NodeShare) :
    SharePortsExact acl now source destination sshUsersEnforced sourceShares destShares ↔
      (acl.allows now source destination → ∀ port, 1 ≤ port → port ≤ 65535 →
        ingressAdmits (acl.peerIngressFor now destination source sshUsersEnforced) (some .tcp)
            (some port) = false →
          (Opened acl now source destination sshUsersEnforced destShares port ↔
            Owed acl source destination sourceShares port)) := by
  have hrow : acl.allows now source destination →
      ∃ ingress, acl.rowIngress now source destination sshUsersEnforced destShares =
        some ingress := by
    intro hallows
    simp [Acl.rowIngress, hallows]
  constructor
  · -- On a port the rules keep closed, only share ports decide.
    intro hexact hallows port hlow hhigh hclosed
    obtain ⟨ingress, hingress⟩ := hrow hallows
    have hadmits := hexact ingress hingress port hlow hhigh
    rw [rowIngress_admits hingress hlow, hclosed] at hadmits
    simpa using hadmits
  · intro hagree ingress hingress port hlow hhigh
    rw [rowIngress_admits hingress hlow]
    by_cases hopen : ingressAdmits (acl.peerIngressFor now destination source sshUsersEnforced)
        (some .tcp) (some port)
    · -- The rules open the port anyway, on both sides.
      simp only [hopen, true_or]
    · -- A row exists, so the pair is connected.
      have hallows : acl.allows now source destination := by
        by_contra hno
        simp [Acl.rowIngress, hno] at hingress
      rw [hagree hallows port hlow hhigh (Bool.eq_false_iff.mpr hopen)]

/-- Offices reach the web service of stores; stores reach no office. -/
def webAcl : Acl where
  defaults := .deny
  rules := [
    { action := .allow, srcTags := [.office], dstTags := [.store], dstPorts := ["443"],
      protocols := [.tcp] }]

/-- A store that publishes a folder opens its share port on every office, which publishes
none. -/
theorem sharePorts_opened_by_peer :
    ¬ SharePortsExact webAcl 0 { tags := [.office] } { tags := [.store] } false []
      [{ label := "files", path := "/srv/files" }] := by
  intro hexact
  have hport := hexact _ rfl 5647 (by decide) (by decide)
  have hadmitted : ingressAdmits (webAcl.peerIngressFor 0 { tags := [.store] }
      { tags := [.office] } false) (some .tcp) (some 5647) ∨
      Owed webAcl { tags := [.office] } { tags := [.store] } [] 5647 := hport.mp (by decide)
  rcases hadmitted with hopen | ⟨⟨share, hshare, -⟩, -⟩
  · exact absurd hopen (by decide)
  · cases hshare

end Rows

end BlakTail.Access
