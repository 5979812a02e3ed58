import BlakTail.Dataplane.Flows

/-!
# Admission

Why the userspace filter lets a packet in.  Over every run of calls the table keeps
one invariant, `Filter.Admitted`: a flow a peer opened is one the installed policy
would let it open now.  So a packet that gets in is allowed as a new flow, answers a
flow this device opened, or is an ICMP error about a tracked flow.

The invariant needs no assumption on the clock: it holds for every order of times.
-/

namespace BlakTail.Dataplane

open Foundation

/-! ## Flow keys of inbound packets -/

variable {packet : Packet} {key : FlowKey}

theorem inboundKey_endpoints (h : inboundKey packet = some key) :
    key.proto = packet.proto ∧ key.remote = packet.source := by
  unfold inboundKey at h
  split at h
  · cases h
    exact ⟨rfl, rfl⟩
  · split at h
    · cases h
      exact ⟨rfl, rfl⟩
    · cases h
  · cases h
    exact ⟨rfl, rfl⟩

/-- Under TCP and UDP the service port of an inbound packet is its key's local port. -/
theorem inboundKey_servicePort {data : List UInt8} (hparse : parse data = .ok packet)
    (hlater : packet.fragment.isLater = false) (hkey : inboundKey packet = some key)
    (hproto : key.proto = TCP ∨ key.proto = UDP) : packet.servicePort = key.localPort := by
  rw [(inboundKey_endpoints hkey).1] at hproto
  obtain ⟨source, destination, flags, hl4⟩ := (parse_ports hparse hlater).mp hproto
  simp only [inboundKey, hl4, Option.some.injEq] at hkey
  simp only [Packet.servicePort, hl4, ← hkey]

/-- The verdict on a packet as a new flow is the verdict on its key: under TCP and UDP
the key has the packet's port, and elsewhere ports are not read. -/
theorem allows_packet (policy : Policy) {data : List UInt8} {port : UInt16}
    (hparse : parse data = .ok packet) (hlater : packet.fragment.isLater = false)
    (hkey : inboundKey packet = some key)
    (hport : key.proto = TCP ∨ key.proto = UDP → port = key.localPort) :
    policy.allows packet.source packet.proto packet.servicePort =
      policy.allows key.remote key.proto port := by
  obtain ⟨hproto, hremote⟩ := inboundKey_endpoints hkey
  rw [← hproto, ← hremote]
  by_cases hports : key.proto = TCP ∨ key.proto = UDP
  · rw [inboundKey_servicePort hparse hlater hkey hports, hport hports]
  · obtain ⟨htcp, hudp⟩ := not_or.mp hports
    exact policy.allows_port_irrelevant key.remote htcp hudp _ _

/-! ## The invariant -/

/-- Every flow a peer opened is one the installed policy admits, and under TCP and UDP
its service is the local port of its key. -/
def Filter.Admitted (f : Filter) : Prop :=
  ∀ key state, f.states.lookup key = some state → state.initiator = .inbound →
    f.policy.allows key.remote key.proto state.servicePort ∧
      (key.proto = TCP ∨ key.proto = UDP → state.servicePort = key.localPort)

namespace Filter

variable {f : Filter} {packet : Packet} {now : Nat}

/-- The same, over the abstract table. -/
theorem admitted_iff_origin :
    f.Admitted ↔ ∀ key port, f.origin key = some ⟨.inbound, port⟩ →
      f.policy.allows key.remote key.proto port ∧
        (key.proto = TCP ∨ key.proto = UDP → port = key.localPort) := by
  constructor
  · intro hadmitted key port horigin
    obtain ⟨state, hlookup, ho⟩ := origin_eq_some.mp horigin
    obtain ⟨hinitiator, rfl⟩ := Origin.mk.inj ho
    exact hadmitted key state hlookup hinitiator
  · intro horigin key state hlookup hinitiator
    refine horigin key state.servicePort (origin_eq_some.mpr ⟨state, hlookup, ?_⟩)
    rw [State.origin, hinitiator]

/-- The invariant survives whatever drops and continues flows, if each flow opened on
a peer's behalf satisfies it. -/
theorem Evolves.admitted {g : Filter}
    {opened : FlowKey → Origin → Prop} (hevolves : Evolves opened f g)
    (hf : f.Admitted)
    (hopened : ∀ key port, opened key ⟨.inbound, port⟩ →
      f.policy.allows key.remote key.proto port ∧ (key.proto = TCP ∨ key.proto = UDP →
      port = key.localPort)) :
    g.Admitted := by
  rw [admitted_iff_origin] at hf ⊢
  intro key port horigin
  rw [hevolves.policy]
  rcases hevolves.origin key _ horigin with hold | hnew
  · exact hf key port hold
  · exact hopened key port hnew

theorem Shrinks.admitted {g : Filter} (h : Shrinks f g) (hf : f.Admitted) : g.Admitted := by
  have hevolves : Evolves (fun _ _ => False) f g := h.evolves
  exact hevolves.admitted hf fun _ _ hnone => hnone.elim

theorem inbound_admitted (hf : f.Admitted) (data : List UInt8) (now : Nat) :
    (f.inbound data now).1.Admitted := by
  refine (inbound_evolves f data now).admitted hf ?_
  rintro key port ⟨packet, hparse, hlater, hkey, ho, hallow⟩
  obtain ⟨-, rfl⟩ := Origin.mk.inj ho
  obtain ⟨hproto, hremote⟩ := inboundKey_endpoints hkey
  refine ⟨?_, inboundKey_servicePort hparse hlater hkey⟩
  rw [hproto, hremote]
  exact hallow

theorem outbound_admitted (hf : f.Admitted) (data : List UInt8) (now : Nat) :
    (f.outbound data now).Admitted := by
  refine (outbound_evolves f data now).admitted hf ?_
  rintro key port ⟨packet, -, -, -, ho⟩
  cases ho

theorem setPolicy_admitted (hf : f.Admitted) (policy : Policy) : (f.setPolicy policy).Admitted := by
  intro key state hlookup hinitiator
  obtain ⟨hold, hkept⟩ := setPolicy_lookup.mp hlookup
  rw [setPolicy_policy]
  refine ⟨?_, (hf key state hold hinitiator).2⟩
  rcases hkept with houtbound | hallow
  · rw [hinitiator] at houtbound
    cases houtbound
  · exact hallow

theorem step_admitted (f : Filter) (call : Call) (hf : f.Admitted) : (f.step call).Admitted := by
  cases call with
  | inbound data now => exact inbound_admitted hf data now
  | outbound data now => exact outbound_admitted hf data now
  | setPolicy policy => exact setPolicy_admitted hf policy
  | setTraffic enabled unixNow =>
    have hevolves : Evolves (fun _ _ => False) f (f.setTraffic enabled unixNow) :=
      setTraffic_evolves f enabled unixNow
    exact hevolves.admitted hf fun _ _ hnone => hnone.elim
  | takeTraffic => exact hf
  | takeEvents => exact (takeEvents_quiet f).shrinks.admitted hf
  | restoreEvents events => exact (restoreEvents_quiet f events).shrinks.admitted hf

theorem run_admitted (epochUnix : Int) (instanceId : Nat) (calls : List Call) :
    (run step (new epochUnix instanceId) calls).Admitted :=
  run_invariant step_admitted calls fun key state hlookup => absurd hlookup (by simp [new])

/-! ## Why a packet gets in -/

/-- The installed policy lets the packet open a flow. -/
def AllowsNew (f : Filter) (packet : Packet) : Prop :=
  f.policy.allows packet.source packet.proto packet.servicePort

/-- The packet belongs to a live flow this device opened. -/
def AnswersOutbound (f : Filter) (packet : Packet) (now : Nat) : Prop :=
  ∃ key state, inboundKey packet = some key ∧ f.states.lookup key = some state ∧
    state.initiator = .outbound ∧ now < state.expires

/-- The packet is an ICMP error that quotes a packet of a live flow. -/
def QuotesTracked (f : Filter) (data : List UInt8) (packet : Packet) (now : Nat) : Prop :=
  ∃ kind ident body inner key state, packet.l4 = .icmp kind ident body ∧
    isError packet.proto kind ∧
    parseEmbedded ((data.take packet.len).drop body) = .ok inner ∧
    outboundKey inner = some key ∧ f.states.lookup key = some state ∧ now < state.expires

theorem quoted_eq_some {data : List UInt8} {state : State}
    (h : f.quoted data packet now = some state) : f.QuotesTracked data packet now := by
  unfold quoted at h
  split at h
  · next kind ident body hl4 =>
    split at h
    · next herror =>
      unfold related at h
      split at h
      · cases h
      · split at h
        · cases h
        · next inner hinner =>
          split at h
          · cases h
          · next key hkey =>
            obtain ⟨hlookup, hlive⟩ := Option.filter_eq_some_iff.mp h
            exact ⟨kind, ident, body, inner, key, state, hl4, herror, hinner, hkey, hlookup,
              of_decide_eq_true hlive⟩
    · cases h
  · cases h

theorem Admitted.allowsNew (hf : f.Admitted) {data : List UInt8} {state : State}
    (hparse : parse data = .ok packet) (hlater : packet.fragment.isLater = false)
    (hkey : inboundKey packet = some key) (hlookup : f.states.lookup key = some state)
    (hinitiator : state.initiator = .inbound) : f.AllowsNew packet := by
  obtain ⟨hallow, hport⟩ := hf key state hlookup hinitiator
  exact (allows_packet f.policy hparse hlater hkey hport).trans hallow

theorem inbound_true (hf : f.Admitted) {data : List UInt8} (hparse : parse data = .ok packet)
    (hlater : packet.fragment.isLater = false) (h : (f.inbound data now).2) :
    f.AllowsNew packet ∨ f.AnswersOutbound packet now ∨ f.QuotesTracked data packet now := by
  have hpurge := (maybePurge_swept f now).shrinks
  obtain ⟨ops, hpath, -⟩ := inbound_path f data now
  rw [h] at hpath
  -- the policy is asked after the purge, which leaves it alone
  have hnew : ((f.maybePurge now).newCounter packet).allowed → f.AllowsNew packet := by
    intro hallow
    rw [AllowsNew, ← hpurge.policy]
    exact hallow
  generalize htrue : true = verdict at hpath
  cases hpath with
  | malformed hfault => cases hfault.symm.trans hparse
  | followed hfound hfragment | orphan hfound hfragment =>
    cases hfound.symm.trans hparse
    rw [hfragment] at hlater
    cases hlater
  | @tracked _ key state hfound _ hkey hlookup hlive =>
    cases hfound.symm.trans hparse
    -- A live entry admits the packet; who opened it gives the reason.
    have hlookup := hpurge.states key state hlookup
    cases hinitiator : state.initiator with
    | inbound => exact .inl (hf.allowsNew hparse hlater hkey hlookup hinitiator)
    | outbound => exact .inr (.inl ⟨key, state, hkey, hlookup, hinitiator, hlive⟩)
  | quoted hfound _ _ hquoted =>
    cases hfound.symm.trans hparse
    obtain ⟨kind, ident, body, inner, key, state, hl4, herror, hinner, hkey, hlookup, hlive⟩ :=
      quoted_eq_some hquoted
    exact .inr (.inr ⟨kind, ident, body, inner, key, state, hl4, herror, hinner, hkey,
      hpurge.states key state hlookup, hlive⟩)
  | opened hfound _ _ _ hallow | admitted hfound _ _ hallow =>
    cases hfound.symm.trans hparse
    exact .inl (hnew hallow)
  | denied => cases htrue

/-- **Admission**: in every state a filter reaches, the table satisfies the invariant, a
flow its peer opened admits only packets the policy allows, and every packet that gets
in has one of the three reasons. -/
theorem run_inbound_justified (epochUnix : Int) (instanceId : Nat) (calls : List Call) :
    let f := run step (new epochUnix instanceId) calls
    f.Admitted ∧
    ∀ data packet, parse data = .ok packet → packet.fragment.isLater = false →
      (∀ key state, inboundKey packet = some key → f.states.lookup key = some state →
        state.initiator = .inbound → f.AllowsNew packet) ∧
      ∀ now, (f.inbound data now).2 →
        f.AllowsNew packet ∨ f.AnswersOutbound packet now ∨ f.QuotesTracked data packet now := by
  intro f
  have hf : f.Admitted := run_admitted epochUnix instanceId calls
  refine ⟨hf, fun data packet hparse hlater => ⟨?_, ?_⟩⟩
  · intro key state hkey hlookup hinitiator
    exact hf.allowsNew hparse hlater hkey hlookup hinitiator
  · intro now hadmits
    exact inbound_true hf hparse hlater hadmits

end Filter

/-! ## A concrete run -/

/-- An IPv4 TCP segment between two overlay hosts, without options or payload. -/
def tcpSegment (source destination : UInt8) (sourcePort destinationPort : UInt16)
    (flags : UInt8) : List UInt8 :=
  [0x45, 0, 0, 40, 0, 0, 0, 0, 64, 6, 0, 0, 100, 64, 0, source, 100, 64, 0, destination,
    (sourcePort >>> 8).toUInt8, sourcePort.toUInt8,
    (destinationPort >>> 8).toUInt8, destinationPort.toUInt8,
    0, 0, 0, 0, 0, 0, 0, 0, 0x50, flags, 0xff, 0xff, 0, 0, 0, 0]

/-- A policy that grants the peer at `100.64.0.2` one TCP port specification. -/
def tcpGrant (ports : String) : Policy :=
  Policy.compile
    [{ id := "peer", allowedIps := ["100.64.0.2/32"], ingress := some { tcp := [ports] } }] none

/-- The first packet of a granted connection is admitted for the first reason. -/
theorem run_inbound_justified_syn :
    let f := run Filter.step (Filter.new 0 0) [.setPolicy (tcpGrant "22")]
    let data := tcpSegment 2 1 40000 22 0x02
    ∃ packet, parse data = .ok packet ∧ (f.inbound data 1).2 ∧
      (f.AllowsNew packet ∨ f.AnswersOutbound packet 1 ∨ f.QuotesTracked data packet 1) := by
  intro f data
  have hadmits : (f.inbound data 1).2 := by decide +kernel
  refine ⟨⟨.v4 0x64400002, .v4 0x64400001, TCP, .ports 40000 22 0x02, .whole, 40⟩,
    by decide +kernel, hadmits, ?_⟩
  have hrun := Filter.run_inbound_justified 0 0 [.setPolicy (tcpGrant "22")]
  exact (hrun.2 data _ (by decide +kernel) rfl).2 1 hadmits

end BlakTail.Dataplane
