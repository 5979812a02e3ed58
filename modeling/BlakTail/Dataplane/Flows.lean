import BlakTail.Dataplane.Paths

/-!
# What Each Operation Does to the Flow Table

The filter's table is seen through `Filter.origin`: which side opened each flow, and for
which service port.  Everything else in an entry (timers, counters, bookkeeping) may
change while a flow lives; its origin never does.

The three specifications at the end, `inbound_evolves`, `outbound_evolves` and
`setPolicy_origin`, say all a call can do to the table; the invariants of the later
modules are derived from them and never unfold the filter again.
-/

namespace BlakTail.Dataplane

open Foundation

/-- Who opened a flow, and for which service. -/
structure Origin where
  initiator : Direction
  servicePort : UInt16
  deriving DecidableEq

/-- The part of an entry that stays as long as its flow lives. -/
def State.origin (state : State) : Origin := ⟨state.initiator, state.servicePort⟩

namespace Filter

def origin (f : Filter) (key : FlowKey) : Option Origin := (f.states.lookup key).map State.origin

variable {f : Filter} {key : FlowKey} {g : Filter}

theorem origin_eq_some {o : Origin} :
    f.origin key = some o ↔ ∃ state, f.states.lookup key = some state ∧ state.origin = o :=
  Option.map_eq_some_iff

/-! ## Three relations between filters -/

/-- Policy and table are untouched. -/
structure Quiet (f g : Filter) : Prop where
  policy : g.policy = f.policy
  states : g.states = f.states

/-- The policy is untouched and flows are only dropped. -/
structure Shrinks (f g : Filter) : Prop where
  policy : g.policy = f.policy
  states : Table.Sub g.states f.states

/-- The policy is untouched, and every flow is an old one or an opened one. -/
structure Evolves (opened : FlowKey → Origin → Prop) (f g : Filter) : Prop where
  policy : g.policy = f.policy
  origin : ∀ key o, g.origin key = some o → f.origin key = some o ∨ opened key o

theorem Quiet.shrinks (h : Quiet f g) : Shrinks f g :=
  ⟨h.policy, by rw [h.states]; exact Table.Sub.refl _⟩

theorem Shrinks.refl (f : Filter) : Shrinks f f := ⟨rfl, Table.Sub.refl _⟩

theorem Shrinks.evolves {opened : FlowKey → Origin → Prop}
    (h : Shrinks f g) : Evolves opened f g := by
  refine ⟨h.policy, fun key o ho => .inl ?_⟩
  obtain ⟨state, hlookup, rfl⟩ := origin_eq_some.mp ho
  exact origin_eq_some.mpr ⟨state, h.states key state hlookup, rfl⟩

theorem Evolves.trans {h : Filter} {opened : FlowKey → Origin → Prop} (hfg : Evolves opened f g)
    (hgh : Evolves opened g h) : Evolves opened f h := by
  refine ⟨hgh.policy.trans hfg.policy, fun key o ho => ?_⟩
  rcases hgh.origin key o ho with hold | hnew
  · exact hfg.origin key o hold
  · exact .inr hnew

/-- Storing a state under `key` opens at most that state's flow. -/
theorem evolves_store {opened : FlowKey → Origin → Prop}
    {state : State} (hpolicy : g.policy = f.policy)
    (hstates : g.states = f.states.insert key state)
    (hstate : f.origin key = some state.origin ∨ opened key state.origin) : Evolves opened f g := by
  refine ⟨hpolicy, fun key' o ho => ?_⟩
  obtain ⟨state', hlookup, rfl⟩ := origin_eq_some.mp ho
  rw [hstates, Table.lookup_insert_if] at hlookup
  split at hlookup
  · next heq =>
    cases hlookup
    exact heq ▸ hstate
  · exact .inl (origin_eq_some.mpr ⟨state', hlookup, rfl⟩)

/-! ## Operations -/

variable (f)

theorem takeEvents_quiet : Quiet f f.takeEvents.1 := by
  unfold takeEvents
  split <;> exact ⟨rfl, rfl⟩

theorem restoreEvents_quiet (events : List FlowEvent) : Quiet f (f.restoreEvents events) := by
  unfold restoreEvents
  split <;> exact ⟨rfl, rfl⟩

variable (keep : FlowKey → State → Bool)

theorem retainStates_policy : (f.retainStates keep).policy = f.policy := by
  rw [retainStates_eq]
  rfl

theorem retainStates_states : (f.retainStates keep).states = f.states.retain keep := by
  rw [retainStates_eq]
  rfl

variable {f}

theorem Swept.shrinks {now : Nat} (h : Swept now f g) : Shrinks f g := by
  obtain ⟨_, _, _, _, _, hsub, -, rfl⟩ := h
  exact ⟨rfl, hsub⟩

/-- What an operation must be to open only flows of a stated kind. -/
def Op.Opens (opened : FlowKey → Origin → Prop) : Op → Prop
  | .insert key state _ => opened key state.origin
  | _ => True

theorem apply_evolves {opened : FlowKey → Origin → Prop} (f : Filter) (op : Op)
    (hop : op.Opens opened) : Evolves opened f (f.apply op) := by
  cases op with
  | forget key =>
    refine Shrinks.evolves ?_
    simp only [apply]
    split
    · rw [ended_eq]
      exact ⟨rfl, Table.erase_sub _ _⟩
    · exact Shrinks.refl f
  | insert key state now =>
    refine (makeRoom_swept f now).shrinks.evolves.trans ?_
    obtain ⟨g, rfl, heq⟩ := insert_eq f key state now
    rw [apply, heq]
    exact evolves_store rfl rfl (.inr hop)
  | refresh key packet via now =>
    simp only [apply]
    split
    · next state hlookup =>
      exact evolves_store rfl rfl (.inl (origin_eq_some.mpr ⟨state, hlookup, rfl⟩))
    · exact (Shrinks.refl f).evolves
  | count key len =>
    obtain ⟨_, _, heq⟩ := count_eq f key len
    rw [apply, heq]
    exact Shrinks.evolves ⟨rfl, Table.Sub.refl _⟩
  | drop packet peer hint now =>
    obtain ⟨_, _, _, -, heq⟩ := dropped_eq f packet peer hint now
    rw [apply, heq]
    exact Shrinks.evolves ⟨rfl, Table.Sub.refl _⟩
  | remember packet allow counter now =>
    obtain ⟨_, heq⟩ := rememberFragment_eq f packet allow counter now
    rw [apply, heq]
    exact Shrinks.evolves ⟨rfl, Table.Sub.refl _⟩

/-- A path evolves if each flow it inserts is of the kind that is admitted. -/
theorem run_evolves {opened : FlowKey → Origin → Prop} {ops : List Op}
    (hops : ∀ op ∈ ops, op.Opens opened) (f : Filter) : Evolves opened f (run apply f ops) := by
  induction ops generalizing f with
  | nil => exact (Shrinks.refl f).evolves
  | cons op ops ih =>
    obtain ⟨hop, hops⟩ := List.forall_mem_cons.mp hops
    exact (apply_evolves f op hop).trans (ih hops _)

/-! ## Calls -/

/-- The flow an inbound packet may open: the one it belongs to, if the policy allows
it as a new flow. -/
def OpensInbound (policy : Policy) (data : List UInt8) (key : FlowKey) (o : Origin) : Prop :=
  ∃ packet, parse data = .ok packet ∧ packet.fragment.isLater = false ∧
    inboundKey packet = some key ∧ o = ⟨.inbound, packet.servicePort⟩ ∧
    policy.allows packet.source packet.proto packet.servicePort

def OpensOutbound (data : List UInt8) (key : FlowKey) (o : Origin) : Prop :=
  ∃ packet, parse data = .ok packet ∧ packet.fragment.isLater = false ∧
    outboundKey packet = some key ∧ o = ⟨.outbound, packet.servicePort⟩

/-- All an inbound packet can do to the table. -/
theorem inbound_evolves (f : Filter) (data : List UInt8) (now : Nat) :
    Evolves (OpensInbound f.policy data) f (f.inbound data now).1 := by
  have hpurge := (maybePurge_swept f now).shrinks
  obtain ⟨ops, hpath, heq⟩ := inbound_path f data now
  rw [heq, ← hpurge.policy]
  refine hpurge.evolves.trans (run_evolves ?_ _)
  generalize (f.inbound data now).2 = verdict at hpath
  cases hpath with
  | opened hparse hlater hkey hdead hallow =>
    simp only [List.cons_append, List.nil_append, List.forall_mem_cons, Op.Opens]
    exact ⟨trivial, ⟨_, hparse, hlater, hkey, rfl, hallow⟩, by simp⟩
  | followed | denied => simp +contextual [Op.Opens, or_imp]
  | _ => simp [Op.Opens]

/-- All an outbound packet can do to the table. -/
theorem outbound_evolves (f : Filter) (data : List UInt8) (now : Nat) :
    Evolves (OpensOutbound data) f (f.outbound data now) := by
  obtain ⟨ops, hpath, heq⟩ := outbound_path f data now
  rw [heq]
  refine (maybePurge_swept f now).shrinks.evolves.trans (run_evolves ?_ _)
  cases hpath with
  | opened hparse hlater hkey hdead =>
    simp only [List.cons_append, List.nil_append, List.forall_mem_cons, Op.Opens]
    exact ⟨trivial, ⟨_, hparse, hlater, hkey, rfl⟩, by simp⟩
  | _ => simp [Op.Opens]

theorem setPolicy_policy (f : Filter) (policy : Policy) : (f.setPolicy policy).policy = policy :=
  retainStates_policy _ _

/-- All a policy change does to the table: it drops the inbound flows the new policy
denies. -/
theorem setPolicy_lookup {policy : Policy} {state : State} :
    (f.setPolicy policy).states.lookup key = some state ↔
      f.states.lookup key = some state ∧
        (state.initiator = .outbound ∨
          policy.allows key.remote key.proto state.servicePort) := by
  have hstates : (f.setPolicy policy).states = f.states.retain fun key state =>
      state.initiator == Direction.outbound ||
        policy.allows key.remote key.proto state.servicePort :=
    retainStates_states _ _
  rw [hstates, Table.lookup_retain_eq_some, Bool.or_eq_true, beq_iff_eq]

theorem setTraffic_policy (f : Filter) (enabled : Bool) (unixNow : Int) :
    (f.setTraffic enabled unixNow).policy = f.policy := by
  unfold setTraffic
  split
  · rfl
  · split <;> rfl

theorem setTraffic_origin (f : Filter) (enabled : Bool) (unixNow : Int) (key : FlowKey) :
    (f.setTraffic enabled unixNow).origin key = f.origin key := by
  unfold setTraffic
  split
  · -- Turning counting off clears the bookkeeping of every flow, not its origin.
    simp only [origin, Table.lookup_mapValues, Option.map_map]
    rfl
  · split <;> rfl

theorem setTraffic_evolves (f : Filter) (enabled : Bool) (unixNow : Int)
    {opened : FlowKey → Origin → Prop} : Evolves opened f (f.setTraffic enabled unixNow) :=
  ⟨setTraffic_policy f enabled unixNow, fun key _ h =>
    .inl (by rw [← setTraffic_origin f enabled unixNow key]; exact h)⟩

end Filter

end BlakTail.Dataplane
