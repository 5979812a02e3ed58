import BlakTail.Foundation.Run
import BlakTail.Dataplane.Tracker

/-!
# The Paths of a Packet

A call on a packet takes one of a few paths through the filter, and each path is a short
list of elementary operations.  `inbound_path` and `outbound_path` say so once; what the
later modules show of a call they show of each operation, and then of the paths.
-/

namespace BlakTail.Dataplane

open Foundation

/-- ICMP errors carry no flow key of their own. -/
theorem inboundKey_error {packet : Packet} {kind : UInt8} {ident : UInt16} {body : Nat}
    (hl4 : packet.l4 = .icmp kind ident body) (herror : isError packet.proto kind) :
    inboundKey packet = none := by
  have hecho : isEcho packet.proto kind = false := by
    unfold isError at herror
    unfold isEcho isEchoRequest
    simp only [Bool.or_eq_true, Bool.and_eq_true, beq_iff_eq, decide_eq_true_eq] at herror
    rcases herror with ⟨hproto, (rfl | rfl) | rfl⟩ | ⟨hproto, hlow, hhigh⟩
    · rw [hproto]; decide
    · rw [hproto]; decide
    · rw [hproto]; decide
    · -- ICMPv6 errors are kinds 1 to 4; echo is 128 and 129.
      have hrequest : kind ≠ 128 := by rintro rfl; exact absurd hhigh (by decide)
      have hreply : kind ≠ 129 := by rintro rfl; exact absurd hhigh (by decide)
      rw [hproto, beq_eq_false_iff_ne.mpr hrequest, beq_eq_false_iff_ne.mpr hreply]
      rfl
  simp only [inboundKey, hl4, hecho, Bool.false_eq_true, if_false]

namespace Filter

variable {f : Filter} {key : FlowKey} {state : State} {now : Nat} {packet : Packet}
  {via : Direction}

/-! ## What the operations write -/

/-- Events pushed in order, while events are on. -/
def pushed (f : Filter) (es : List FlowEvent) : Filter :=
  { f with events := f.events.map fun buffer => es.foldl Buffer.push buffer }

theorem pushed_pushed (f : Filter) (es es' : List FlowEvent) :
    (f.pushed es).pushed es' = f.pushed (es ++ es') := by
  simp [pushed, Function.comp_def]

theorem pushed_nil (f : Filter) : f.pushed [] = f := by
  simp [pushed]

theorem pushed_off (hevents : f.events = none) (es : List FlowEvent) : f.pushed es = f := by
  cases f
  subst hevents
  rfl

variable (f)

theorem emit_eq (e : Option FlowEvent) : f.emit e = f.pushed e.toList := by
  cases hevents : f.events with
  | none =>
    rw [pushed_off hevents]
    simp [emit, hevents]
  | some buffer =>
    cases e with
    | none => simp [emit, pushed_nil]
    | some e => simp [emit, pushed, hevents]

def endEvent (key : FlowKey) (state : State) : Option FlowEvent :=
  f.flowEvent key state .stop (f.unix ((state.flow.map FlowStats.lastSeen).getD 0))

variable (key)

theorem ended_eq (state : State) : f.ended key state = f.pushed (f.endEvent key state).toList := by
  unfold ended
  split
  · next hevents => exact (pushed_off hevents _).symm
  · exact emit_eq f _

def endEvents (gone : List (Sigma fun _ : FlowKey => State)) : List FlowEvent :=
  gone.flatMap fun e => (f.endEvent e.1 e.2).toList

/-- What a sweep writes. -/
theorem retainStates_eq (keep : FlowKey → State → Bool) :
    f.retainStates keep = { f with states := f.states.retain keep }.pushed
      (f.endEvents (f.states.entries.filter fun e => !keep e.1 e.2 && e.2.flow.isSome)) := by
  have hended : ∀ (gone : List (Sigma fun _ : FlowKey => State)) (g : Filter),
      gone.foldl (fun f e => f.ended e.1 e.2) g = g.pushed (g.endEvents gone) := by
    intro gone
    induction gone with
    | nil => exact fun g => (pushed_nil g).symm
    | cons e gone ih =>
      intro g
      rw [List.foldl_cons, ih, ended_eq, pushed_pushed]
      rfl
  exact hended _ _

/-- A purge drops the expired flows and verdicts, and may tidy the eviction order. -/
theorem purge_eq (now : Nat) :
    ∃ g, g = { f.retainStates (fun _ state => now < state.expires) with
        lastPurge := now
        fragments := f.fragments.retain fun _ entry => now < entry.expires } ∧
      f.purge now = { g with
        order := if g.states.size * 2 + 64 < g.order.length then g.liveOrder else g.order } := by
  refine ⟨_, rfl, ?_⟩
  unfold purge
  simp only [retainStates_eq, pushed]
  split
  · rfl
  · rfl

theorem evict_eq (pending : List (FlowKey × Nat)) :
    ∃ states order es, Table.Sub states f.states ∧
      f.evict pending = { f with states := states, order := order }.pushed es := by
  induction pending generalizing f with
  | nil => exact ⟨f.states, [], [], Table.Sub.refl _, (pushed_nil _).symm⟩
  | cons oldest rest ih =>
    unfold evict
    split
    · exact ⟨f.states, _, [], Table.Sub.refl _, (pushed_nil _).symm⟩
    · split
      · split
        · rw [ended_eq]
          obtain ⟨states, order, es, hsub, heq⟩ :=
            ih ({ f with states := f.states.erase oldest.1 }.pushed _)
          exact ⟨states, order, _, hsub.trans (Table.erase_sub _ _), heq.trans
            (pushed_pushed { f with states := states, order := order } _ es)⟩
        · exact ih f
      · exact ih f

/-- What a sweep or an eviction at `now` makes of a filter: flows and expired verdicts go. -/
def Swept (now : Nat) (f g : Filter) : Prop :=
  ∃ states order lastPurge fragments es, Table.Sub states f.states ∧
    (fragments = f.fragments ∨
      fragments = f.fragments.retain fun _ entry => now < entry.expires) ∧
    g = { f with
      states := states
      order := order
      lastPurge := lastPurge
      fragments := fragments }.pushed es

theorem Swept.refl : Swept now f f :=
  ⟨_, _, _, _, [], Table.Sub.refl _, .inl rfl, (pushed_nil f).symm⟩

theorem purge_swept (now : Nat) : Swept now f (f.purge now) := by
  obtain ⟨g, rfl, heq⟩ := purge_eq f now
  let gone := f.states.entries.filter fun e => !decide (now < e.2.expires) && e.2.flow.isSome
  refine ⟨f.states.retain fun _ state => now < state.expires, (f.purge now).order, now, _,
    f.endEvents gone, Table.retain_sub _ _, .inr rfl, ?_⟩
  rw [heq, retainStates_eq]
  rfl

theorem maybePurge_swept (now : Nat) : Swept now f (f.maybePurge now) := by
  unfold maybePurge
  split
  · exact purge_swept f now
  · exact Swept.refl f

theorem makeRoom_swept (now : Nat) : Swept now f (f.makeRoom now) := by
  have hsweep : Swept now f (f.sweepFull now) := by
    unfold sweepFull
    split
    · exact purge_swept f now
    · exact Swept.refl f
  unfold makeRoom
  dsimp only
  split
  · obtain ⟨states, order, es, hsub, heq⟩ := evict_eq (f.sweepFull now) (f.sweepFull now).order
    obtain ⟨kept, queue, lastPurge, fragments, es', hkept, hfragments, hswept⟩ := hsweep
    rw [heq, hswept]
    rw [hswept] at hsub
    exact ⟨states, order, lastPurge, fragments, es' ++ es, hsub.trans hkept, hfragments,
      pushed_pushed { f with
        states := states
        order := order
        lastPurge := lastPurge
        fragments := fragments } es' es⟩
  · exact hsweep

theorem dropped_eq (f : Filter) (packet : Packet) (peer : Option String) (hint : String)
    (now : Nat) : ∃ nextFlow drops dropOverflow, f.nextFlow ≤ nextFlow ∧
      f.dropped packet peer hint now =
        { f with nextFlow := nextFlow, drops := drops, dropOverflow := dropOverflow } := by
  unfold dropped
  split
  · exact ⟨_, _, _, le_rfl, rfl⟩
  · dsimp only
    split
    · exact ⟨_, _, _, le_rfl, rfl⟩
    · split
      · exact ⟨_, _, _, le_rfl, rfl⟩
      · exact ⟨_, _, _, Nat.le_succ _, rfl⟩

theorem count_eq (key : TrafficKey) (len : Nat) :
    ∃ traffic overflow, f.count key len = { f with traffic := traffic, overflow := overflow } := by
  unfold count
  split
  · exact ⟨_, _, rfl⟩
  · split
    · exact ⟨_, _, rfl⟩
    · exact ⟨_, _, rfl⟩

theorem rememberFragment_eq (packet : Packet) (allow : Bool) (counter : Option TrafficKey)
    (now : Nat) :
    ∃ fragments, f.rememberFragment packet allow counter now =
      { f with fragments := fragments } := by
  unfold rememberFragment
  split
  · dsimp only
    split
    · exact ⟨_, rfl⟩
    · exact ⟨_, rfl⟩
  · exact ⟨_, rfl⟩

/-- A flow as it enters the table: numbered and, while events are on, with bookkeeping. -/
def numbered (state : State) (now : Nat) : State :=
  { state with
    generation := f.generation + 1
    flow := if f.events.isSome then some { id := f.nextFlow + 1, lastSeen := now } else state.flow }

/-- The start event of a flow that enters the table. -/
def startEvent (key : FlowKey) (state : State) (now : Nat) : Option FlowEvent :=
  f.flowEvent key (f.numbered state now) .start (f.unix now)

/-- The table with one more flow. -/
def entered (key : FlowKey) (state : State) (now : Nat) : Filter :=
  { f with
    generation := f.generation + 1
    nextFlow := if f.events.isSome then f.nextFlow + 1 else f.nextFlow
    order := f.order ++ [(key, f.generation + 1)]
    states := f.states.insert key (f.numbered state now) }.pushed
      (f.startEvent key state now).toList

theorem startFlow_eq (state : State) (now : Nat) :
    f.startFlow key state now =
      ({ f with
          generation := f.generation + 1
          nextFlow := if f.events.isSome then f.nextFlow + 1 else f.nextFlow }.pushed
        (f.startEvent key state now).toList, f.numbered state now) := by
  cases hevents : f.events with
  | none =>
    have hoff : ({ f with generation := f.generation + 1 } : Filter).events = none := hevents
    simp only [startFlow, numbered, hevents, Option.isSome_none, Bool.false_eq_true, if_false]
    rw [← hevents, pushed_off hoff]
  | some buffer =>
    simp only [startFlow, numbered, hevents, Option.isSome_some, if_true, emit_eq]
    rw [startEvent, numbered, hevents]
    rfl

theorem enter_eq (state : State) :
    ∃ g, g = { f with
        order := f.order ++ [(key, f.generation)]
        states := f.states.insert key state } ∧
      f.enter key state = { g with
        order := if MAX_STATES * 2 < g.order.length then g.liveOrder else g.order } := by
  refine ⟨_, rfl, ?_⟩
  unfold enter
  dsimp only
  split
  · rfl
  · rfl

/-- A flow enters the table when there is room, and the eviction order may be tidied. -/
theorem insert_eq (state : State) (now : Nat) :
    ∃ g, g = (f.makeRoom now).entered key state now ∧
      f.insert key state now = { g with
        order := if MAX_STATES * 2 < g.order.length then g.liveOrder else g.order } := by
  unfold insert
  rw [startFlow_eq]
  obtain ⟨g, hg, heq⟩ := enter_eq ({ f.makeRoom now with
    generation := (f.makeRoom now).generation + 1
    nextFlow := if (f.makeRoom now).events.isSome then (f.makeRoom now).nextFlow + 1
      else (f.makeRoom now).nextFlow }.pushed
        ((f.makeRoom now).startEvent key state now).toList) key
    ((f.makeRoom now).numbered state now)
  exact ⟨g, hg, heq⟩

variable {key}

/-! ## Operations -/

/-- The elementary operations of a call on a packet. -/
inductive Op where
  | forget (key : FlowKey)
  | insert (key : FlowKey) (state : State) (now : Nat)
  | refresh (key : FlowKey) (packet : Packet) (via : Direction) (now : Nat)
  | count (key : TrafficKey) (len : Nat)
  | drop (packet : Packet) (peer : Option String) (hint : String) (now : Nat)
  | remember (packet : Packet) (allow : Bool) (counter : Option TrafficKey) (now : Nat)

/-- One operation.  An absent flow is neither forgotten nor refreshed. -/
def apply : Op → Filter
  | .forget key =>
    match f.states.lookup key with
    | some state => { f with states := f.states.erase key }.ended key state
    | none => f
  | .insert key state now => f.insert key state now
  | .refresh key packet via now =>
    match f.states.lookup key with
    | some state => { f with states := f.states.insert key (state.refresh packet via now) }
    | none => f
  | .count key len => f.count key len
  | .drop packet peer hint now => f.dropped packet peer hint now
  | .remember packet allow counter now => f.rememberFragment packet allow counter now

/-- The verdict under which an operation counts a packet. -/
def Op.counts : Op → Option Bool
  | .count key _ => some key.allowed
  | _ => none

/-- The verdict an operation remembers, and what it is counted under. -/
def Op.remembers : Op → Option (Bool × Option TrafficKey)
  | .remember _ allow counter _ => some (allow, counter)
  | _ => none

/-- What an operation leaves alone: counters unless it counts, verdicts unless it remembers
one, but for a sweep. -/
structure Frames (op : Op) (f g : Filter) : Prop where
  policy : g.policy = f.policy
  epochUnix : g.epochUnix = f.epochUnix
  instanceId : g.instanceId = f.instanceId
  counters : op.counts = none → g.traffic = f.traffic ∧ g.overflow = f.overflow
  fragments : op.remembers = none → g.fragments = f.fragments ∨ ∃ key state now,
    op = .insert key state now ∧
      g.fragments = f.fragments.retain fun _ entry => now < entry.expires

/-- Each operation keeps within its frame; only an insert may sweep. -/
theorem apply_frames (op : Op) : Frames op f (f.apply op) := by
  cases op with
  | forget key =>
    simp only [apply]
    split
    · rw [ended_eq]
      exact ⟨rfl, rfl, rfl, fun _ => ⟨rfl, rfl⟩, fun _ => .inl rfl⟩
    · exact ⟨rfl, rfl, rfl, fun _ => ⟨rfl, rfl⟩, fun _ => .inl rfl⟩
  | insert key state now =>
    obtain ⟨g, rfl, heq⟩ := insert_eq f key state now
    obtain ⟨_, _, _, fragments, _, -, hfragments, hroom⟩ := makeRoom_swept f now
    rw [apply, heq, hroom]
    exact ⟨rfl, rfl, rfl, fun _ => ⟨rfl, rfl⟩,
      fun _ => hfragments.imp id fun hswept => ⟨key, state, now, rfl, hswept⟩⟩
  | refresh key packet via now =>
    simp only [apply]
    split
    · exact ⟨rfl, rfl, rfl, fun _ => ⟨rfl, rfl⟩, fun _ => .inl rfl⟩
    · exact ⟨rfl, rfl, rfl, fun _ => ⟨rfl, rfl⟩, fun _ => .inl rfl⟩
  | count key len =>
    obtain ⟨_, _, heq⟩ := count_eq f key len
    rw [apply, heq]
    exact ⟨rfl, rfl, rfl, fun h => (nomatch h), fun _ => .inl rfl⟩
  | drop packet peer hint now =>
    obtain ⟨_, _, _, -, heq⟩ := dropped_eq f packet peer hint now
    rw [apply, heq]
    exact ⟨rfl, rfl, rfl, fun _ => ⟨rfl, rfl⟩, fun _ => .inl rfl⟩
  | remember packet allow counter now =>
    obtain ⟨_, heq⟩ := rememberFragment_eq f packet allow counter now
    rw [apply, heq]
    exact ⟨rfl, rfl, rfl, fun _ => ⟨rfl, rfl⟩, nofun⟩

/-- The table holds a flow under `key` that has not expired. -/
def live (key : FlowKey) (now : Nat) : Bool :=
  (f.states.lookup key).any fun state => now < state.expires

variable {f}

theorem touch_live (hlookup : f.states.lookup key = some state) (hlive : now < state.expires) :
    f.touch key packet via now =
      (run apply f [.refresh key packet via now, .count (state.counterKey packet.proto) packet.len],
        true) := by
  simp only [touch, hlookup, if_neg (not_le.mpr hlive), run_cons, run_nil, apply]
  rfl

theorem touch_dead (hdead : f.live key now = false) :
    f.touch key packet via now = (f.apply (.forget key), false) := by
  cases hlookup : f.states.lookup key with
  | none => simp [touch, apply, hlookup]
  | some state =>
    have hexpired : state.expires ≤ now := by simpa [live, hlookup] using hdead
    simp [touch, apply, hlookup, hexpired]

variable (f)

theorem insert_lookup (key : FlowKey) (state : State) (now : Nat) :
    ∃ flow generation, (f.insert key state now).states.lookup key =
      some { state with flow := flow, generation := generation } := by
  obtain ⟨g, rfl, heq⟩ := insert_eq f key state now
  rw [heq]
  exact ⟨_, _, AList.lookup_insert _⟩

/-- The first packet of a flow is counted on it. -/
theorem touch_inserted (key : FlowKey) (state : State) (packet : Packet) (via : Direction)
    (hlive : now < state.expires) :
    (f.insert key state now).touch key packet via now =
      (run apply f [.insert key state now, .refresh key packet via now,
        .count (state.counterKey packet.proto) packet.len], true) := by
  obtain ⟨flow, generation, hlookup⟩ := insert_lookup f key state now
  exact (touch_live hlookup hlive).trans rfl

/-! ## Inbound -/

/-- The aggregate a packet decided by the policy is counted under. -/
def newCounter (packet : Packet) : TrafficKey :=
  let (allow, peer, _) :=
    f.policy.decideWithHint packet.source packet.proto packet.servicePort
  ⟨peer, .inbound, packet.proto, portClass packet.servicePort, allow⟩

/-- The flow a packet from a peer opens. -/
def inboundState (packet : Packet) (now : Nat) : State :=
  { initiator := .inbound
    peer := (f.newCounter packet).peer
    servicePort := packet.servicePort
    replied := false
    expires := now + initialTimeout packet.proto }

/-- The flow a packet of this device opens. -/
def outboundState (packet : Packet) (now : Nat) : State :=
  { initiator := .outbound
    peer := f.policy.peerFor packet.destination
    servicePort := packet.servicePort
    replied := false
    expires := now + initialTimeout packet.proto }

theorem lt_initialTimeout (now : Nat) (proto : UInt8) : now < now + initialTimeout proto := by
  unfold initialTimeout
  split
  · exact Nat.lt_add_of_pos_right (by decide)
  split
  · exact Nat.lt_add_of_pos_right (by decide)
  split
  · exact Nat.lt_add_of_pos_right (by decide)
  · exact Nat.lt_add_of_pos_right (by decide)

/-- The paths of an inbound packet, after the purge: the operations and the verdict. -/
inductive InboundPath (f : Filter) (data : List UInt8) (now : Nat) : List Op → Bool → Prop where
  | malformed {fault : Fault} (hparse : parse data = .error fault) :
      InboundPath f data now [.count ⟨none, .inbound, 0, 0, false⟩ data.length] false
  | followed {packet : Packet} {key : FragmentKey} {entry : FragmentState}
      (hparse : parse data = .ok packet) (hlater : packet.fragment = .later key)
      (hentry : (f.fragments.lookup key).filter (fun entry => now < entry.expires) = some entry) :
      InboundPath f data now (entry.counter.toList.map (.count · packet.len)) entry.allow
  | orphan {packet : Packet} {key : FragmentKey} (hparse : parse data = .ok packet)
      (hlater : packet.fragment = .later key)
      (hentry : (f.fragments.lookup key).filter (fun entry => now < entry.expires) = none) :
      InboundPath f data now
        [.count ⟨f.policy.peerFor packet.source, .inbound, key.proto, 0, false⟩ packet.len] false
  | tracked {packet : Packet} {key : FlowKey} {state : State} (hparse : parse data = .ok packet)
      (hlater : packet.fragment.isLater = false) (hkey : inboundKey packet = some key)
      (hlookup : f.states.lookup key = some state) (hlive : now < state.expires) :
      InboundPath f data now
        [.refresh key packet .inbound now, .count (state.counterKey packet.proto) packet.len] true
  | quoted {packet : Packet} {state : State} (hparse : parse data = .ok packet)
      (hlater : packet.fragment.isLater = false) (hkey : inboundKey packet = none)
      (hquoted : f.quoted data packet now = some state) :
      InboundPath f data now ([.count (state.counterKey packet.proto) packet.len] ++
        [.remember packet true (some (state.counterKey packet.proto)) now]) true
  | opened {packet : Packet} {key : FlowKey} (hparse : parse data = .ok packet)
      (hlater : packet.fragment.isLater = false) (hkey : inboundKey packet = some key)
      (hdead : f.live key now = false) (hallow : (f.newCounter packet).allowed) :
      InboundPath f data now ([.forget key, .insert key (f.inboundState packet now) now,
        .refresh key packet .inbound now, .count (f.newCounter packet) packet.len] ++
        [.remember packet true (some (f.newCounter packet)) now]) true
  | admitted {packet : Packet} (hparse : parse data = .ok packet)
      (hlater : packet.fragment.isLater = false) (hkey : inboundKey packet = none)
      (hallow : (f.newCounter packet).allowed) :
      InboundPath f data now ([.count (f.newCounter packet) packet.len] ++
        [.remember packet true (some (f.newCounter packet)) now]) true
  | denied {packet : Packet} (hint : String) (hparse : parse data = .ok packet)
      (hlater : packet.fragment.isLater = false)
      (hdead : ∀ key ∈ inboundKey packet, f.live key now = false)
      (hdeny : (f.newCounter packet).allowed = false) :
      InboundPath f data now ((inboundKey packet).toList.map .forget ++
        [.drop packet (f.newCounter packet).peer hint now,
          .count (f.newCounter packet) packet.len] ++
        [.remember packet false (some (f.newCounter packet)) now]) false

/-- A new packet is denied, or admitted with its flow if it has one. -/
theorem inboundNew_eq (packet : Packet) (now : Nat) :
    ∃ hint, f.inboundNew packet now =
      (run apply f (if (f.newCounter packet).allowed then
          match inboundKey packet with
          | some key => [.insert key (f.inboundState packet now) now,
            .refresh key packet .inbound now, .count (f.newCounter packet) packet.len,
            .remember packet true (some (f.newCounter packet)) now]
          | none => [.count (f.newCounter packet) packet.len,
            .remember packet true (some (f.newCounter packet)) now]
        else [.drop packet (f.newCounter packet).peer hint now,
          .count (f.newCounter packet) packet.len,
          .remember packet false (some (f.newCounter packet)) now]),
        (f.newCounter packet).allowed) := by
  unfold inboundNew openInbound inboundState newCounter
  dsimp only
  obtain ⟨allow, peer, hint⟩ :=
    f.policy.decideWithHint packet.source packet.proto packet.servicePort
  refine ⟨hint, ?_⟩
  cases allow with
  | false => simp [apply]
  | true =>
    cases inboundKey packet with
    | none => simp [apply]
    | some key =>
      simp only [Option.isNone_some, Bool.not_true, Bool.or_self, Bool.false_eq_true, if_true,
        if_false]
      rw [touch_inserted f key _ packet .inbound (lt_initialTimeout now packet.proto)]
      rfl

/-- A packet with a flow key of its own quotes none. -/
theorem quoted_eq_none {data : List UInt8} (hkey : inboundKey packet = some key) (f : Filter) :
    f.quoted data packet now = none := by
  unfold quoted
  split
  · next kind ident body hl4 =>
    split
    · next herror =>
      rw [inboundKey_error hl4 herror] at hkey
      cases hkey
    · rfl
  · rfl

/-- Every call on a packet from a peer takes one of the paths. -/
theorem inbound_path (data : List UInt8) (now : Nat) :
    ∃ ops, InboundPath (f.maybePurge now) data now ops (f.inbound data now).2 ∧
      (f.inbound data now).1 = run apply (f.maybePurge now) ops := by
  unfold inbound
  dsimp only
  generalize f.maybePurge now = p
  split
  · next fault hparse => exact ⟨_, .malformed hparse, rfl⟩
  next packet hparse =>
  split
  · next key hlater =>
    -- a later fragment has no ports: the verdict on its first fragment decides
    unfold laterFragment
    split
    · next entry hentry =>
      have hpath := InboundPath.followed hparse hlater hentry
      cases hcounter : entry.counter with
      | some counter | none => exact ⟨_, hpath, by rw [hcounter]; rfl⟩
    · next hentry => exact ⟨_, .orphan hparse hlater hentry, rfl⟩
  next hnot =>
  have hlater := Fragment.isLater_eq_false hnot
  unfold inboundPacket inboundUntracked
  cases hkey : inboundKey packet with
  | none =>
    -- an ICMP error passes for the flow it quotes; all else without a key is new
    cases hquoted : p.quoted data packet now with
    | some state => exact ⟨_, .quoted hparse hlater hkey hquoted, rfl⟩
    | none =>
      obtain ⟨hint, hnew⟩ := inboundNew_eq p packet now
      rw [hnew, hkey]
      cases hallow : (p.newCounter packet).allowed with
      | true => exact ⟨_, .admitted hparse hlater hkey hallow, rfl⟩
      | false =>
        refine ⟨_, .denied hint hparse hlater (by simp [hkey]) hallow, ?_⟩
        rw [hkey]
        rfl
  | some key =>
    dsimp only
    cases hlive : p.live key now with
    | true =>
      -- a live flow decides; the policy is not asked
      obtain ⟨state, hlookup, hexpires⟩ := (Option.any_eq_true _ _).mp hlive
      rw [touch_live hlookup (of_decide_eq_true hexpires)]
      exact ⟨_, .tracked hparse hlater hkey hlookup (of_decide_eq_true hexpires), rfl⟩
    | false =>
      -- an expired entry is forgotten first, which does not touch the policy
      have hcounter : (p.apply (.forget key)).newCounter packet = p.newCounter packet := by
        rw [newCounter, newCounter, (apply_frames p _).policy]
      have hstate : (p.apply (.forget key)).inboundState packet now =
          p.inboundState packet now := by
        rw [inboundState, inboundState, hcounter]
      obtain ⟨hint, hnew⟩ := inboundNew_eq (p.apply (.forget key)) packet now
      rw [touch_dead hlive]
      simp only [Bool.false_eq_true, if_false, quoted_eq_none hkey]
      rw [hnew, hcounter, hstate, hkey]
      cases hallow : (p.newCounter packet).allowed with
      | true => exact ⟨_, .opened hparse hlater hkey hlive hallow, rfl⟩
      | false =>
        refine ⟨_, .denied hint hparse hlater ?_ hallow, ?_⟩
        · rintro _ hfound
          rw [hkey] at hfound
          cases hfound
          exact hlive
        · rw [hkey]
          rfl

variable {f}

/-! ## Outbound -/

/-- The paths of an outbound packet, after the purge. -/
inductive OutboundPath (f : Filter) (data : List UInt8) (now : Nat) : List Op → Prop where
  | malformed {fault : Fault} (hparse : parse data = .error fault) : OutboundPath f data now []
  | followed {packet : Packet} {key : FragmentKey} {entry : FragmentState} {counter : TrafficKey}
      (hparse : parse data = .ok packet) (hlater : packet.fragment = .later key)
      (hentry : (f.fragments.lookup key).filter (fun entry => now < entry.expires) = some entry)
      (hcounter : entry.counter = some counter) :
      OutboundPath f data now [.count counter packet.len]
  | orphan {packet : Packet} {key : FragmentKey} (hparse : parse data = .ok packet)
      (hlater : packet.fragment = .later key)
      (hentry : ∀ entry ∈ (f.fragments.lookup key).filter (fun entry => now < entry.expires),
        entry.counter = none) : OutboundPath f data now []
  | tracked {packet : Packet} {key : FlowKey} {state : State} (hparse : parse data = .ok packet)
      (hlater : packet.fragment.isLater = false) (hkey : outboundKey packet = some key)
      (hlookup : f.states.lookup key = some state) (hlive : now < state.expires) :
      OutboundPath f data now ([.refresh key packet .outbound now,
        .count (state.counterKey packet.proto) packet.len] ++
        [.remember packet true (some (state.counterKey packet.proto)) now])
  | opened {packet : Packet} {key : FlowKey} (hparse : parse data = .ok packet)
      (hlater : packet.fragment.isLater = false) (hkey : outboundKey packet = some key)
      (hdead : f.live key now = false) :
      OutboundPath f data now ([.forget key, .insert key (f.outboundState packet now) now,
        .refresh key packet .outbound now,
        .count ((f.outboundState packet now).counterKey packet.proto) packet.len] ++
        [.remember packet true (some ((f.outboundState packet now).counterKey packet.proto)) now])
  | unkeyed {packet : Packet} {counter : TrafficKey} (hparse : parse data = .ok packet)
      (hlater : packet.fragment.isLater = false) (hkey : outboundKey packet = none)
      (hallowed : counter.allowed) :
      OutboundPath f data now
        ([.count counter packet.len] ++ [.remember packet true (some counter) now])

/-- A packet counted on its flow finds the flow there. -/
theorem refreshed_counter {counter : TrafficKey} {len : Nat}
    (hlookup : f.states.lookup key = some state)
    (hcounter : state.counterKey packet.proto = counter) :
    ((run apply f [.refresh key packet via now, .count counter len]).states.lookup key).map
      (fun state => state.counterKey packet.proto) = some counter := by
  simp only [run_cons, run_nil, apply, hlookup]
  obtain ⟨_, _, heq⟩ :=
    count_eq { f with states := f.states.insert key (state.refresh packet via now) } counter len
  rw [heq, AList.lookup_insert, ← hcounter]
  rfl

variable (f)

theorem inserted_counter (key : FlowKey) (state : State) (packet : Packet) (via : Direction)
    (now len : Nat) :
    ((run apply f [.insert key state now, .refresh key packet via now,
        .count (state.counterKey packet.proto) len]).states.lookup key).map
      (fun state => state.counterKey packet.proto) = some (state.counterKey packet.proto) := by
  obtain ⟨flow, generation, hlookup⟩ := insert_lookup f key state now
  exact refreshed_counter hlookup rfl

theorem openOutbound_eq (key : FlowKey) (packet : Packet) (now : Nat) :
    f.openOutbound key packet now = run apply f [.insert key (f.outboundState packet now) now,
      .refresh key packet .outbound now,
      .count ((f.outboundState packet now).counterKey packet.proto) packet.len] :=
  congrArg Prod.fst (touch_inserted f key (f.outboundState packet now) packet .outbound
    (lt_initialTimeout now packet.proto))

/-- Every call on a packet of this device takes one of the paths. -/
theorem outbound_path (data : List UInt8) (now : Nat) :
    ∃ ops, OutboundPath (f.maybePurge now) data now ops ∧
      f.outbound data now = run apply (f.maybePurge now) ops := by
  unfold outbound
  dsimp only
  generalize f.maybePurge now = p
  split
  · next fault hparse => exact ⟨_, .malformed hparse, rfl⟩
  next packet hparse =>
  split
  · next key hlater =>
    -- it is only counted, where the first one was
    split
    · next hentry => exact ⟨_, .followed hparse hlater hentry rfl, rfl⟩
    · next hnot =>
      refine ⟨_, .orphan hparse hlater fun entry hentry => ?_, rfl⟩
      cases hcounter : entry.counter with
      | none => rfl
      | some counter =>
        refine absurd ?_ (hnot entry.allow counter entry.expires)
        rw [← hcounter]
        exact Option.mem_def.mp hentry
  next hnot =>
  have hlater := Fragment.isLater_eq_false hnot
  split
  · next key hkey =>
    unfold outboundPacket
    cases hlive : p.live key now with
    | true =>
      obtain ⟨state, hlookup, hexpires⟩ := (Option.any_eq_true _ _).mp hlive
      have hexpires := of_decide_eq_true hexpires
      refine ⟨_, .tracked hparse hlater hkey hlookup hexpires, ?_⟩
      rw [touch_live hlookup hexpires]
      dsimp only
      rw [if_pos rfl, refreshed_counter hlookup rfl]
      rfl
    | false =>
      refine ⟨_, .opened hparse hlater hkey hlive, ?_⟩
      have hstate : (p.apply (.forget key)).outboundState packet now =
          p.outboundState packet now := by
        rw [outboundState, outboundState, (apply_frames p _).policy]
      rw [touch_dead hlive]
      simp only [Bool.false_eq_true, if_false]
      rw [openOutbound_eq, hstate, inserted_counter]
      simp only [run_cons, run_nil]
      rfl
  · next hkey => exact ⟨_, .unkeyed hparse hlater hkey rfl, rfl⟩

end Filter

end BlakTail.Dataplane
