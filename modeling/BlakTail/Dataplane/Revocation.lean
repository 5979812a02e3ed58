import BlakTail.Dataplane.Admission

/-!
# Revocation

A policy change ends the inbound flows the new policy denies.  The flow stays ended
as long as this device sends nothing on it: an outbound packet under the same key
enters the table as a flow of this device, and the peer's packets then answer it.
-/

namespace BlakTail.Dataplane

open Foundation

/-- The packet belongs to the flow `key`. -/
def Carries (data : List UInt8) (key : FlowKey) : Prop :=
  ∃ packet, parse data = .ok packet ∧ packet.fragment.isLater = false ∧
    inboundKey packet = some key

/-- The packet, sent by this device, belongs to the flow `key`. -/
def Sends (data : List UInt8) (key : FlowKey) : Prop :=
  ∃ packet, parse data = .ok packet ∧ packet.fragment.isLater = false ∧
    outboundKey packet = some key

/-- The call neither changes the policy nor sends a packet on the flow. -/
def Call.Leaves (key : FlowKey) : Call → Prop
  | .setPolicy _ => False
  | .outbound data _ => ¬ Sends data key
  | _ => True

namespace Filter

/-- The table holds an inbound flow under `key` that `policy` denies. -/
def Revokes (f : Filter) (policy : Policy) (key : FlowKey) : Prop :=
  ∃ state, f.states.lookup key = some state ∧ state.initiator = .inbound ∧
    policy.allows key.remote key.proto state.servicePort = false

/-- `policy` is installed and no flow is tracked under `key`. -/
structure Closed (policy : Policy) (key : FlowKey) (f : Filter) : Prop where
  policy : f.policy = policy
  origin : f.origin key = none

/-- The policy denies every packet of the flow. -/
def Denies (policy : Policy) (key : FlowKey) : Prop :=
  ∀ data packet, parse data = .ok packet → packet.fragment.isLater = false →
    inboundKey packet = some key →
    policy.allows packet.source packet.proto packet.servicePort = false

variable {f : Filter} {policy : Policy} {key : FlowKey}

theorem Revokes.denies (hf : f.Admitted) (hrevokes : f.Revokes policy key) : Denies policy key := by
  obtain ⟨state, hlookup, hinitiator, hdenied⟩ := hrevokes
  intro data packet hparse hlater hkey
  rw [allows_packet policy hparse hlater hkey (hf key state hlookup hinitiator).2]
  exact hdenied

theorem setPolicy_closed (hrevokes : f.Revokes policy key) :
    Closed policy key (f.setPolicy policy) := by
  obtain ⟨state, hlookup, hinitiator, hdenied⟩ := hrevokes
  refine ⟨setPolicy_policy f policy, ?_⟩
  unfold origin
  cases hafter : (f.setPolicy policy).states.lookup key with
  | none => rfl
  | some kept =>
    -- A kept entry is the old one, which is neither outbound nor allowed.
    obtain ⟨hold, hkept⟩ := setPolicy_lookup.mp hafter
    rw [hlookup] at hold
    cases hold
    rcases hkept with houtbound | hallowed
    · rw [hinitiator] at houtbound
      cases houtbound
    · rw [hdenied] at hallowed
      cases hallowed

/-- A closed flow stays closed under whatever does not open it. -/
theorem Evolves.closed {g : Filter}
    {opened : FlowKey → Origin → Prop} (hevolves : Evolves opened f g)
    (hf : Closed policy key f) (hopened : ∀ o, ¬ opened key o) : Closed policy key g := by
  refine ⟨hevolves.policy.trans hf.policy, ?_⟩
  cases horigin : g.origin key with
  | none => rfl
  | some o =>
    rcases hevolves.origin key o horigin with hold | hnew
    · rw [hf.origin] at hold
      cases hold
    · exact absurd hnew (hopened o)

theorem Shrinks.closed {g : Filter}
    (h : Shrinks f g) (hf : Closed policy key f) : Closed policy key g := by
  have hevolves : Evolves (fun _ _ => False) f g := h.evolves
  exact hevolves.closed hf fun _ hnone => hnone

theorem step_closed (hdenies : Denies policy key) (f : Filter) (call : Call)
    (hleaves : call.Leaves key) (hf : Closed policy key f) : Closed policy key (f.step call) := by
  cases call with
  | inbound data now =>
    -- The peer cannot reopen the flow: the policy denies its first packet.
    refine (inbound_evolves f data now).closed hf ?_
    rintro o ⟨packet, hparse, hlater, hkey, -, hallow⟩
    rw [hf.policy, hdenies data packet hparse hlater hkey] at hallow
    cases hallow
  | outbound data now =>
    -- Only this device could, and it sends nothing on the flow.
    refine (outbound_evolves f data now).closed hf ?_
    rintro o ⟨packet, hparse, hlater, hkey, -⟩
    exact hleaves ⟨packet, hparse, hlater, hkey⟩
  | setPolicy policy' => exact hleaves.elim
  | setTraffic enabled unixNow =>
    have hevolves : Evolves (fun _ _ => False) f (f.setTraffic enabled unixNow) :=
      setTraffic_evolves f enabled unixNow
    exact hevolves.closed hf fun _ hnone => hnone
  | takeTraffic => exact ⟨hf.policy, hf.origin⟩
  | takeEvents => exact (takeEvents_quiet f).shrinks.closed hf
  | restoreEvents events => exact (restoreEvents_quiet f events).shrinks.closed hf

/-- A closed, denied flow admits no packet. -/
theorem Closed.inbound_false (hf : Closed policy key f) (hdenies : Denies policy key)
    (hadmitted : f.Admitted) {data : List UInt8} (hcarries : Carries data key) (now : Nat) :
    (f.inbound data now).2 = false := by
  obtain ⟨packet, hparse, hlater, hkey⟩ := hcarries
  rw [Bool.eq_false_iff]
  intro hadmits
  rcases inbound_true hadmitted hparse hlater hadmits with hnew | houtbound | hquotes
  · unfold AllowsNew at hnew
    rw [hf.policy, hdenies data packet hparse hlater hkey] at hnew
    cases hnew
  · obtain ⟨key', state, hkey', hlookup, -, -⟩ := houtbound
    rw [hkey] at hkey'
    cases hkey'
    have horigin : f.origin key = some state.origin := origin_eq_some.mpr ⟨state, hlookup, rfl⟩
    rw [hf.origin] at horigin
    cases horigin
  · -- An ICMP error carries no key, so it is not a packet of this flow.
    obtain ⟨kind, ident, body, -, -, -, hl4, herror, -⟩ := hquotes
    rw [inboundKey_error hl4 herror] at hkey
    cases hkey

/-- **Revocation**: from the policy change on, as long as the policy stays and this
device sends nothing on the flow, no packet of the revoked flow is admitted. -/
theorem revoked_flow_stays_closed (epochUnix : Int) (instanceId : Nat) (before after : List Call)
    (policy : Policy) (key : FlowKey)
    (hrevokes : (run step (new epochUnix instanceId) before).Revokes policy key)
    (hleaves : ∀ call ∈ after, call.Leaves key) (data : List UInt8) (hcarries : Carries data key)
    (now : Nat) :
    ((run step (new epochUnix instanceId) (before ++ .setPolicy policy :: after)).inbound
      data now).2 = false := by
  have hbefore := run_admitted epochUnix instanceId before
  have hdenies := hrevokes.denies hbefore
  have hadmitted := run_admitted epochUnix instanceId (before ++ .setPolicy policy :: after)
  rw [run_append, run_cons] at hadmitted ⊢
  refine Closed.inbound_false ?_ hdenies hadmitted hcarries now
  exact run_invariant_all (step_closed hdenies) hleaves (setPolicy_closed hrevokes)

end Filter

/-! ## The device's own packets reopen the flow -/

/-- The SSH connection of the concrete runs, seen from the device at `100.64.0.1`. -/
def sshFlow : FlowKey := ⟨TCP, .v4 0x64400001, .v4 0x64400002, 22, 40000⟩

/-- The peer opens a granted SSH connection. -/
def sshOpened : List Call :=
  [.setPolicy (tcpGrant "22"), .inbound (tcpSegment 2 1 40000 22 0x02) 1]

theorem sshFlow_revoked :
    (run Filter.step (Filter.new 0 0) sshOpened).Revokes (tcpGrant "80") sshFlow := by
  have horigin : (run Filter.step (Filter.new 0 0) sshOpened).origin sshFlow =
      some ⟨.inbound, 22⟩ := by decide +kernel
  obtain ⟨state, hlookup, ho⟩ := Filter.origin_eq_some.mp horigin
  obtain ⟨hinitiator, hport⟩ := Origin.mk.inj ho
  refine ⟨state, hlookup, hinitiator, ?_⟩
  rw [hport]
  decide +kernel

theorem sshFlow_carried : Carries (tcpSegment 2 1 40000 22 0x10) sshFlow :=
  ⟨⟨.v4 0x64400002, .v4 0x64400001, TCP, .ports 40000 22 0x10, .whole, 40⟩,
    by decide +kernel, rfl, by decide +kernel⟩

/-- With only a packet of another connection sent in between, the revoked one is closed. -/
theorem revoked_flow_stays_closed_ssh :
    (run Filter.step (Filter.new 0 0) sshOpened).Revokes (tcpGrant "80") sshFlow ∧
    ((run Filter.step (Filter.new 0 0) (sshOpened ++ .setPolicy (tcpGrant "80") ::
      [.outbound (tcpSegment 1 2 80 40001 0x10) 2])).inbound
        (tcpSegment 2 1 40000 22 0x10) 3).2 = false := by
  refine ⟨sshFlow_revoked, Filter.revoked_flow_stays_closed 0 0 sshOpened
    [.outbound (tcpSegment 1 2 80 40001 0x10) 2] (tcpGrant "80") sshFlow sshFlow_revoked ?_ _
    sshFlow_carried 3⟩
  intro call hcall
  cases List.mem_singleton.mp hcall
  rintro ⟨packet, hparse, -, hkey⟩
  have hother : ∀ packet ∈ (parse (tcpSegment 1 2 80 40001 0x10)).toOption,
      outboundKey packet ≠ some sshFlow := by decide +kernel
  exact hother packet (by rw [hparse]; rfl) hkey

/-- The server's answer, sent after the change, reopens the revoked connection for the
peer. -/
theorem revoked_flow_reopened :
    (run Filter.step (Filter.new 0 0) sshOpened).Revokes (tcpGrant "80") sshFlow ∧
    Carries (tcpSegment 2 1 40000 22 0x10) sshFlow ∧
    ((run Filter.step (Filter.new 0 0) (sshOpened ++ .setPolicy (tcpGrant "80") ::
      [.outbound (tcpSegment 1 2 22 40000 0x10) 2])).inbound
        (tcpSegment 2 1 40000 22 0x10) 3).2 :=
  ⟨sshFlow_revoked, sshFlow_carried, by decide +kernel⟩

end BlakTail.Dataplane
