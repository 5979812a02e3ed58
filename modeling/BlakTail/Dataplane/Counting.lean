import BlakTail.Dataplane.Fragments

/-!
# Counting Packets

While traffic counting is on, each packet is counted once: on its path through the filter
there is one place where it is.  The verdict it is counted under is that of the packet, or of
the first fragment it follows.
-/

namespace BlakTail.Dataplane

open Foundation

/-- The traffic counters, if counting is on, and the packets that found no room there. -/
structure Counters where
  traffic : Option (Table TrafficKey Counter)
  overflow : Nat

namespace Counters

/-- The packets counted under a verdict. -/
def tally (c : Counters) (allowed : Bool) : Nat :=
  c.traffic.elim 0 (Table.total fun key counter =>
    if key.allowed = allowed then counter.packets else 0)

/-- Counting is on, and no counter is at its end. -/
def Countable (c : Counters) : Prop :=
  ∃ traffic, c.traffic = some traffic ∧
    ∀ key counter, traffic.lookup key = some counter → counter.packets < 2 ^ 64 - 1

/-- One packet more is counted, under this verdict or in the overflow. -/
def Counts (allowed : Bool) (c c' : Counters) : Prop :=
  c'.tally (!allowed) = c.tally (!allowed) ∧
    (c'.tally allowed = c.tally allowed + 1 ∧ c'.overflow = c.overflow ∨
      c'.tally allowed = c.tally allowed ∧ c'.overflow = c.overflow + 1)

end Counters

namespace Filter

variable {f g : Filter} {now : Nat} {data : List UInt8} {ops : List Op} {allowed : Bool}

def counters (f : Filter) : Counters := ⟨f.traffic, f.overflow⟩

theorem Swept.counters (h : Swept now f g) : g.counters = f.counters := by
  obtain ⟨_, _, _, _, _, -, -, rfl⟩ := h
  rfl

/-! ## Operations -/

theorem count_counts (hf : f.counters.Countable) (key : TrafficKey) (len : Nat) :
    f.counters.Counts key.allowed (f.count key len).counters := by
  obtain ⟨traffic, htraffic, hfree⟩ := hf
  have htraffic : f.traffic = some traffic := htraffic
  unfold count counters
  rw [htraffic]
  dsimp only
  split
  · exact ⟨rfl, .inr ⟨rfl, rfl⟩⟩
  · have hpackets : satAdd ((traffic.lookup key).getD {}).packets 1 =
        ((traffic.lookup key).getD {}).packets + 1 := by
      cases hlookup : traffic.lookup key with
      | none => rfl
      | some counter => exact min_eq_left (Nat.succ_le_of_lt (hfree key counter hlookup))
    -- the packet is added to its own counter, and the other counters stay
    have htally : ∀ v, Counters.tally ⟨some (traffic.insert key
          ⟨satAdd ((traffic.lookup key).getD {}).bytes len,
            satAdd ((traffic.lookup key).getD {}).packets 1⟩), f.overflow⟩ v =
        Counters.tally ⟨some traffic, f.overflow⟩ v + if key.allowed = v then 1 else 0 := by
      intro v
      unfold Counters.tally
      simp only [Option.elim_some]
      rw [Table.total_insert, hpackets, ← Table.total_erase _ traffic key]
      cases traffic.lookup key with
      | none =>
        simp only [Option.getD_none, Option.elim_none]
        split <;> omega
      | some counter =>
        simp only [Option.getD_some, Option.elim_some]
        split <;> omega
    refine ⟨(htally _).trans ?_, .inl ⟨(htally _).trans ?_, rfl⟩⟩
    · rw [if_neg (by cases key.allowed <;> decide), Nat.add_zero]
    · rw [if_pos rfl]

theorem apply_counters (f : Filter) (op : Op) (hop : op.counts = none) :
    (f.apply op).counters = f.counters := by
  obtain ⟨htraffic, hoverflow⟩ := (apply_frames f op).counters hop
  rw [counters, htraffic, hoverflow]
  rfl

theorem run_counters (f : Filter) (hops : ops.filterMap Op.counts = []) :
    (run apply f ops).counters = f.counters := by
  induction ops generalizing f with
  | nil => rfl
  | cons op ops ih =>
    cases hop : op.counts with
    | none =>
      rw [List.filterMap_cons_none hop] at hops
      exact (ih _ hops).trans (apply_counters f op hop)
    | some v =>
      rw [List.filterMap_cons_some hop] at hops
      cases hops

theorem run_counts (hf : f.counters.Countable) (hops : ops.filterMap Op.counts = [allowed]) :
    f.counters.Counts allowed (run apply f ops).counters := by
  induction ops generalizing f with
  | nil => cases hops
  | cons op ops ih =>
    cases hop : op.counts with
    | none =>
      have hquiet := apply_counters f op hop
      rw [List.filterMap_cons_none hop] at hops
      rw [← hquiet]
      exact ih (hquiet ▸ hf) hops
    | some v =>
      rw [List.filterMap_cons_some hop] at hops
      obtain ⟨rfl, hrest⟩ := List.cons.inj hops
      cases op with
      | count key len =>
        cases hop
        rw [run_cons, run_counters _ hrest]
        exact count_counts hf key len
      | _ => cases hop

/-! ## Remembered verdicts -/

/-- Every remembered verdict comes with an aggregate of that verdict. -/
def Agrees (f : Filter) : Prop :=
  ∀ key entry, f.fragments.lookup key = some entry →
    ∃ counter, entry.counter = some counter ∧ counter.allowed = entry.allow

/-- What an operation must remember for that. -/
def Op.Agrees (op : Op) : Prop :=
  ∀ allow counter, op.remembers = some (allow, counter) →
    ∃ key, counter = some key ∧ key.allowed = allow

theorem agrees_of_sub (hf : Agrees f) (hsub : Table.Sub g.fragments f.fragments) : Agrees g :=
  fun key entry hentry => hf key entry (hsub key entry hentry)

theorem Swept.agrees (h : Swept now f g) (hf : Agrees f) : Agrees g := by
  obtain ⟨_, _, _, _, _, -, rfl | rfl, rfl⟩ := h
  · exact hf
  · exact agrees_of_sub hf (Table.retain_sub _ _)

theorem apply_agrees (f : Filter) (op : Op) (hop : op.Agrees) (hf : Agrees f) :
    Agrees (f.apply op) := by
  cases hremembers : op.remembers with
  | none =>
    rcases (apply_frames f op).fragments hremembers with heq | ⟨_, _, _, -, heq⟩
    · exact agrees_of_sub hf (heq ▸ Table.Sub.refl _)
    · exact agrees_of_sub hf (heq ▸ Table.retain_sub _ _)
  | some remembered =>
    cases op with
    | remember packet allow counter now =>
      have hcounter := hop allow counter rfl
      have hfresh : Table.Sub (f.freshFragments now) f.fragments := by
        unfold freshFragments
        split
        · exact Table.retain_sub _ _
        · exact Table.Sub.refl _
      simp only [apply, rememberFragment]
      split
      · split
        · exact agrees_of_sub hf hfresh
        · intro key entry hentry
          rw [Table.lookup_insert_if] at hentry
          split at hentry
          · cases hentry
            exact hcounter
          · exact hf key entry (hfresh key entry hentry)
      · exact hf
    | _ => cases hremembers

/-! ## Paths -/

/-- An inbound packet is counted once, under its verdict. -/
theorem InboundPath.counts (h : InboundPath f data now ops allowed) (hf : Agrees f) :
    ops.filterMap Op.counts = [allowed] ∧ ∀ op ∈ ops, op.Agrees := by
  cases h with
  | malformed | orphan | tracked => exact ⟨rfl, by simp [Op.Agrees, Op.remembers]⟩
  | followed hparse hlater hentry =>
    obtain ⟨counter, hcounter, hallow⟩ := hf _ _ (Option.filter_eq_some_iff.mp hentry).1
    rw [hcounter, ← hallow]
    exact ⟨rfl, by simp [Op.Agrees, Op.remembers]⟩
  | quoted => exact ⟨rfl, by simp [Op.Agrees, Op.remembers, State.counterKey]⟩
  | opened _ _ _ _ hallow | admitted _ _ _ hallow =>
    exact ⟨congrArg (fun v => [v]) hallow, by simp [Op.Agrees, Op.remembers, hallow]⟩
  | @denied packet _ _ _ _ hdeny =>
    cases inboundKey packet with
    | none | some key =>
      exact ⟨congrArg (fun v => [v]) hdeny, by simp [Op.Agrees, Op.remembers, hdeny]⟩

/-- Nothing is counted for the packet a device sends: it does not parse, or it is a later
fragment and no first fragment of it is remembered. -/
def Unseen (f : Filter) (data : List UInt8) (now : Nat) : Prop :=
  ∀ packet, parse data = .ok packet →
    ∃ key, packet.fragment = .later key ∧ (f.liveFragments now).lookup key = none

/-- No denied first fragment is remembered for the packet a device sends. -/
def Undenied (f : Filter) (data : List UInt8) (now : Nat) : Prop :=
  ∀ packet key entry, parse data = .ok packet → packet.fragment = .later key →
    (f.liveFragments now).lookup key = some entry → entry.allow

theorem liveFragments_lookup (f : Filter) (key : FragmentKey) (now : Nat) :
    (f.liveFragments now).lookup key =
      (f.fragments.lookup key).filter fun entry => now < entry.expires :=
  Table.lookup_retain _ _ _

theorem OutboundPath.counts (h : OutboundPath f data now ops) (hf : Agrees f) :
    (∀ op ∈ ops, op.Agrees) ∧ (f.Unseen data now → ops.filterMap Op.counts = []) ∧
      (¬f.Unseen data now → f.Undenied data now → ops.filterMap Op.counts = [true]) := by
  have hseen : ∀ packet, parse data = .ok packet → packet.fragment.isLater = false →
      ¬f.Unseen data now := by
    intro packet hparse hlater hunseen
    obtain ⟨key, hfragment, -⟩ := hunseen packet hparse
    rw [hfragment] at hlater
    cases hlater
  cases h with
  | malformed hparse =>
    refine ⟨by simp, fun _ => rfl, fun hseen => absurd ?_ hseen⟩
    intro packet hok
    rw [hparse] at hok
    cases hok
  | @followed packet key entry counter hparse hlater hentry hcounter =>
    rw [← liveFragments_lookup] at hentry
    refine ⟨by simp [Op.Agrees, Op.remembers], fun hunseen => ?_, fun _ hundenied => ?_⟩
    · obtain ⟨_, hfragment, hnone⟩ := hunseen packet hparse
      rw [hlater] at hfragment
      cases hfragment
      rw [hentry] at hnone
      cases hnone
    · obtain ⟨_, hown, hallow⟩ := hf key entry (Table.lookup_retain_eq_some.mp hentry).1
      rw [hcounter] at hown
      cases hown
      exact congrArg (fun v => [v]) (hallow.trans (hundenied packet key entry hparse hlater hentry))
  | @orphan packet key hparse hlater hentry =>
    refine ⟨by simp, fun _ => rfl, fun hseen => absurd ?_ hseen⟩
    intro other hother
    rw [hparse] at hother
    cases hother
    refine ⟨key, hlater, ?_⟩
    rw [liveFragments_lookup]
    -- a remembered verdict has an aggregate, so there is none here
    cases hfound : (f.fragments.lookup key).filter fun entry => now < entry.expires with
    | none => rfl
    | some entry =>
      obtain ⟨_, hown, -⟩ := hf key entry (Option.filter_eq_some_iff.mp hfound).1
      rw [hentry entry hfound] at hown
      cases hown
  | tracked hparse hlater | opened hparse hlater =>
    exact ⟨by simp [Op.Agrees, Op.remembers, State.counterKey],
      fun hunseen => absurd hunseen (hseen _ hparse hlater), fun _ _ => rfl⟩
  | unkeyed hparse hlater _ hallowed =>
    exact ⟨by simp [Op.Agrees, Op.remembers, hallowed],
      fun hunseen => absurd hunseen (hseen _ hparse hlater),
      fun _ _ => congrArg (fun v => [v]) hallowed⟩

/-! ## Calls -/

/-- No call remembers a verdict under an aggregate of the other. -/
theorem Agrees.step (hf : Agrees f) (call : Call) : Agrees (f.step call) := by
  cases call with
  | inbound data now =>
    obtain ⟨ops, hpath, heq⟩ := inbound_path f data now
    have hpurged := (maybePurge_swept f now).agrees hf
    rw [Filter.step, heq]
    exact run_invariant_all apply_agrees (hpath.counts hpurged).2 hpurged
  | outbound data now =>
    obtain ⟨ops, hpath, heq⟩ := outbound_path f data now
    have hpurged := (maybePurge_swept f now).agrees hf
    rw [Filter.step, heq]
    exact run_invariant_all apply_agrees (hpath.counts hpurged).1 hpurged
  | setPolicy policy =>
    intro _ _ h
    cases h
  | setTraffic enabled unixNow =>
    exact agrees_of_sub hf (setTraffic_fragments f enabled unixNow ▸ Table.Sub.refl _)
  | takeTraffic => exact hf
  | takeEvents => exact agrees_of_sub hf (takeEvents_fragments f ▸ Table.Sub.refl _)
  | restoreEvents events =>
    exact agrees_of_sub hf (restoreEvents_fragments f events ▸ Table.Sub.refl _)

/-- What a call adds to the counters while counting is on. -/
def Accounts (f : Filter) : Call → Prop
  | .inbound data now => f.counters.Counts (f.inbound data now).2 (f.inbound data now).1.counters
  | .outbound data now =>
    (f.Unseen data now → (f.outbound data now).counters = f.counters) ∧
      (¬f.Unseen data now → f.counters.Counts true (f.outbound data now).counters)
  | .takeTraffic => ∀ allowed, f.takeTraffic.counters.tally allowed + f.takeTraffic.overflow = 0
  | .setTraffic false _ => True
  | call => (f.step call).counters = f.counters

theorem inbound_counts (hf : Agrees f) (hon : f.counters.Countable) (data : List UInt8)
    (now : Nat) :
    f.counters.Counts (f.inbound data now).2 (f.inbound data now).1.counters := by
  obtain ⟨ops, hpath, heq⟩ := inbound_path f data now
  have hpurge := maybePurge_swept f now
  rw [heq, ← hpurge.counters]
  exact run_counts (hpurge.counters ▸ hon) (hpath.counts (hpurge.agrees hf)).1

theorem outbound_counts (hf : Agrees f) (hon : f.counters.Countable)
    (hundenied : f.Undenied data now) : f.Accounts (.outbound data now) := by
  obtain ⟨ops, hpath, heq⟩ := outbound_path f data now
  have hpurge := maybePurge_swept f now
  obtain ⟨-, hnone, hone⟩ := hpath.counts (hpurge.agrees hf)
  unfold Unseen at hnone hone
  unfold Undenied at hone
  rw [hpurge.remembers] at hnone hone
  rw [Accounts, heq, ← hpurge.counters]
  exact ⟨fun hunseen => run_counters _ (hnone hunseen),
    fun hseen => run_counts (hpurge.counters ▸ hon) (hone hseen hundenied)⟩

end Filter

open Filter

/-- In every run, while counting is on and no counter is at its end: an inbound packet adds one
to the counters, under its verdict, or to the overflow; so does a packet this device sends, as
admitted, unless it does not parse or follows no first fragment; a report takes all there is,
and other calls leave the counters alone.  A sent fragment must not follow a first fragment
that came in and was denied. -/
theorem packets_counted (epochUnix : Int) (instanceId : Nat) (calls : List Call) (call : Call)
    (hon : (run step (.new epochUnix instanceId) calls).counters.Countable)
    (hsent : ∀ data now, call = .outbound data now →
      (run step (.new epochUnix instanceId) calls).Undenied data now) :
    (run step (.new epochUnix instanceId) calls).Accounts call := by
  have hf : (run step (.new epochUnix instanceId) calls).Agrees :=
    run_invariant (fun _ call hf => hf.step call) calls nofun
  generalize run step (.new epochUnix instanceId) calls = f at hon hsent hf ⊢
  obtain ⟨traffic, htraffic, -⟩ := id hon
  have htraffic : f.traffic = some traffic := htraffic
  cases call with
  | inbound data now => exact f.inbound_counts hf hon data now
  | outbound data now => exact outbound_counts hf hon (hsent data now rfl)
  | setPolicy policy =>
    change counters { retainStates { f with policy := policy } _ with fragments := ∅ } = _
    rw [retainStates_eq]
    rfl
  | setTraffic enabled unixNow =>
    cases enabled with
    | false => trivial
    | true =>
      change (f.setTraffic true unixNow).counters = _
      simp [setTraffic, htraffic]
  | takeTraffic =>
    intro allowed
    simp [takeTraffic, counters, Counters.tally, htraffic, Table.total]
  | takeEvents =>
    change f.takeEvents.1.counters = _
    unfold takeEvents
    split
    · rfl
    · rfl
  | restoreEvents events =>
    change (f.restoreEvents events).counters = _
    unfold restoreEvents
    split
    · rfl
    · rfl

/-- A later fragment that this device sends after the first one is counted as admitted. -/
theorem packets_counted_fragment :
    let calls := [.setTraffic true 0, .outbound sshFirst 1]
    ((run step (.new 0 0) calls).liveFragments 2).lookup sshDatagram ≠ none ∧
      (run step (.new 0 0) calls).Accounts (.outbound sshLater 2) := by
  intro calls
  refine ⟨by decide +kernel, packets_counted 0 0 calls _ ?_ fun data now hcall => ?_⟩
  · have hroom : (run step (.new 0 0) calls).traffic.any fun traffic =>
        traffic.entries.all fun e => decide (e.2.packets < 2 ^ 64 - 1) := by decide +kernel
    obtain ⟨traffic, htraffic, hroom⟩ := (Option.any_eq_true _ _).mp hroom
    refine ⟨traffic, htraffic, fun key counter hlookup => ?_⟩
    simpa using List.all_eq_true.mp hroom _ (Table.lookup_eq_some_iff.mp hlookup)
  · cases hcall
    intro packet key entry hparse hlater hentry
    have hkey : ∀ packet ∈ (parse sshLater).toOption, packet.fragment = .later sshDatagram := by
      decide +kernel
    have hallow : ∀ entry ∈ ((run step (.new 0 0) calls).liveFragments 2).lookup sshDatagram,
        entry.allow := by decide +kernel
    rw [hkey packet (by rw [hparse]; rfl)] at hlater
    cases hlater
    exact hallow entry hentry

/-- Someone else's fragment under this device's address came in and was denied; the fragment
this device then sends is counted as denied. -/
theorem sent_fragment_denied :
    let f := run step (.new 0 0)
      [.setPolicy (tcpGrant "443"), .setTraffic true 0, .inbound sshFirst 1]
    f.counters.tally false = 1 ∧ (f.outbound sshLater 1).counters.tally true = 0 ∧
      (f.outbound sshLater 1).counters.tally false = 2 := by
  decide +kernel

end BlakTail.Dataplane
