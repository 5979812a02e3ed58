import BlakTail.Foundation.History
import BlakTail.Dataplane.Admission

/-!
# Later Fragments Follow Their First Fragment

A later fragment has no ports, so the filter decides it by the verdict it remembered for the
first fragment of the same datagram.  A verdict counts for `FRAGMENT_SECS`; a new policy
forgets all of them.

A first fragment that a live flow takes is let in without its verdict being remembered.
-/

namespace BlakTail.Dataplane

open Foundation

/-- Where the packet in `data` stands in its datagram, if it parses. -/
def fragmentOf (data : List UInt8) : Option Fragment := (parse data).toOption.map (·.fragment)

theorem fragmentOf_ok {data : List UInt8} {packet : Packet} (h : parse data = .ok packet) :
    fragmentOf data = some packet.fragment := by
  rw [fragmentOf, h]
  rfl

theorem fragmentOf_error {data : List UInt8} {e : Fault} (h : parse data = .error e) :
    fragmentOf data = none := by
  rw [fragmentOf, h]
  rfl

namespace Filter

/-! ## The verdicts that count -/

/-- The remembered verdicts that still count at `now`. -/
def liveFragments (f : Filter) (now : Nat) : Table FragmentKey FragmentState :=
  f.fragments.retain fun _ entry => now < entry.expires

/-- The verdict a later fragment of `key` gets at `now`. -/
def follows (f : Filter) (key : FragmentKey) (now : Nat) : Bool :=
  ((f.liveFragments now).lookup key).any (·.allow)

theorem laterFragment_allow (f : Filter) (key : FragmentKey) (len now : Nat) (source : IpAddr) :
    (f.laterFragment key len now source).2 = f.follows key now := by
  unfold laterFragment follows liveFragments
  rw [Table.lookup_retain]
  split
  · next entry hentry =>
    rw [hentry]
    split <;> rfl
  · next hnone =>
    rw [hnone]
    rfl

/-- The same verdicts count from `now` on. -/
def Remembers (now : Nat) (f g : Filter) : Prop := g.liveFragments now = f.liveFragments now

variable {f g : Filter} {now t : Nat} {key : FragmentKey}

theorem Remembers.of_eq (heq : g.fragments = f.fragments) : Remembers now f g := by
  unfold Remembers liveFragments
  rw [heq]

/-- What counts later counts now. -/
theorem liveFragments_later (f : Filter) (ht : now ≤ t) :
    (f.liveFragments now).retain (fun _ entry => t < entry.expires) = f.liveFragments t := by
  unfold liveFragments
  rw [Table.retain_retain]
  congr 1
  funext _ entry
  rw [← Bool.decide_and, decide_eq_decide]
  exact ⟨fun h => h.2, fun h => ⟨lt_of_le_of_lt ht h, h⟩⟩

theorem Remembers.later (hfg : Remembers now f g) (ht : now ≤ t) : Remembers t f g := by
  unfold Remembers
  rw [← liveFragments_later g ht, hfg, liveFragments_later f ht]

theorem Remembers.follows (hfg : Remembers now f g) (ht : now ≤ t) :
    g.follows key t = f.follows key t := by
  unfold Filter.follows
  rw [hfg.later ht]

/-! ## Operations that keep the verdicts -/

theorem takeEvents_fragments (f : Filter) : f.takeEvents.1.fragments = f.fragments := by
  unfold takeEvents
  split <;> rfl

theorem restoreEvents_fragments (f : Filter) (events : List FlowEvent) :
    (f.restoreEvents events).fragments = f.fragments := by
  unfold restoreEvents
  split <;> rfl

theorem setTraffic_fragments (f : Filter) (enabled : Bool) (unixNow : Int) :
    (f.setTraffic enabled unixNow).fragments = f.fragments := by
  unfold setTraffic
  split
  · rfl
  · split <;> rfl

/-- Expired verdicts are dropped at a sweep, or left out when the live ones are looked at. -/
theorem Swept.remembers (h : Swept now f g) : Remembers now f g := by
  obtain ⟨_, _, _, _, _, -, rfl | rfl, rfl⟩ := h
  · exact Remembers.of_eq rfl
  · exact liveFragments_later f (Nat.le_refl now)

/-- The operation remembers no verdict, and is one of a packet at `now`. -/
def Op.Keeps (now : Nat) : Op → Prop
  | .insert _ _ t => t = now
  | .remember _ _ _ _ => False
  | _ => True

theorem apply_remembers (f : Filter) (op : Op) (hop : op.Keeps now) :
    Remembers now f (f.apply op) := by
  have hnone : op.remembers = none := by
    cases op with
    | remember => exact hop.elim
    | _ => rfl
  rcases (apply_frames f op).fragments hnone with heq | ⟨key, state, t, rfl, heq⟩
  · exact Remembers.of_eq heq
  · obtain rfl : t = now := hop
    unfold Remembers liveFragments
    rw [heq]
    exact liveFragments_later f (Nat.le_refl t)

theorem run_remembers {ops : List Op} (hops : ∀ op ∈ ops, op.Keeps now) (f : Filter) :
    Remembers now f (run apply f ops) := by
  induction ops generalizing f with
  | nil => exact Remembers.of_eq rfl
  | cons op ops ih =>
    obtain ⟨hop, hops⟩ := List.forall_mem_cons.mp hops
    exact (ih hops _).trans (apply_remembers f op hop)

/-! ## Remembering a verdict -/

/-- With room among the live verdicts, expired ones make place. -/
theorem freshFragments_size (hroom : (f.liveFragments now).size < MAX_FRAGMENTS) :
    (f.freshFragments now).size < MAX_FRAGMENTS := by
  unfold freshFragments
  split
  · exact hroom
  · next hsize => exact Nat.lt_of_not_le hsize

theorem freshFragments_remembers (f : Filter) (now : Nat) :
    Remembers now f { f with fragments := f.freshFragments now } := by
  unfold freshFragments
  split
  · exact liveFragments_later f (Nat.le_refl now)
  · exact Remembers.of_eq rfl

/-- The verdict for `key` after one was stored for `stored`. -/
theorem store_follows (f : Filter) (stored key : FragmentKey) (entry : FragmentState) (t : Nat) :
    follows { f with fragments := f.fragments.insert stored entry } key t =
      if stored = key then entry.allow && decide (t < entry.expires) else f.follows key t := by
  unfold follows liveFragments
  rw [Table.lookup_retain, Table.lookup_retain, Table.lookup_insert_if]
  by_cases hkey : stored = key
  · rw [if_pos hkey.symm, if_pos hkey]
    by_cases ht : t < entry.expires
    · simp [ht]
    · simp [ht]
  · rw [if_neg (Ne.symm hkey), if_neg hkey]

/-- A first fragment sets the verdict for its key if the table has room, and no other. -/
theorem rememberFragment_follows {packet : Packet} {allow : Bool} {counter : Option TrafficKey}
    (hroom : packet.fragment = .first key → (f.liveFragments now).size < MAX_FRAGMENTS)
    (ht : now ≤ t) :
    (f.rememberFragment packet allow counter now).follows key t =
      if packet.fragment = .first key then allow && decide (t < now + FRAGMENT_SECS)
      else f.follows key t := by
  have hfresh : follows { f with fragments := f.freshFragments now } key t = f.follows key t :=
    (freshFragments_remembers f now).follows ht
  unfold rememberFragment
  split
  · next stored hstored =>
    simp only [hstored, Fragment.first.injEq] at hroom ⊢
    split
    · next hfull =>
      -- the table is full of live verdicts, so the fragment is not one of `key`
      have hne : stored ≠ key := fun heq =>
        absurd hfull (Nat.not_le.mpr (freshFragments_size (hroom heq)))
      rw [if_neg hne, hfresh]
    · refine (store_follows { f with fragments := f.freshFragments now } stored key _ t).trans ?_
      rw [hfresh]
  · next hnot => rw [if_neg (hnot key)]

/-! ## What a call does to the verdict for one key -/

/-- The live flow that takes the packet in `data` at `now`, before the policy is asked. -/
def takenBy (f : Filter) (data : List UInt8) (now : Nat) : Option State := do
  let packet ← (parse data).toOption
  let key ← inboundKey packet
  (f.states.lookup key).filter fun state => now < state.expires

/-- A path that ends by remembering a verdict sets it for the key of a first fragment. -/
theorem run_follows_remember {ops : List Op} {packet : Packet} {allow : Bool}
    {counter : Option TrafficKey} (hops : ∀ op ∈ ops, op.Keeps now)
    (hroom : packet.fragment = .first key → (f.liveFragments now).size < MAX_FRAGMENTS)
    (ht : now ≤ t) :
    (run apply f (ops ++ [.remember packet allow counter now])).follows key t =
      if packet.fragment = .first key then allow && decide (t < now + FRAGMENT_SECS)
      else f.follows key t := by
  have hpath := run_remembers hops f
  rw [run_append, ← hpath.follows ht]
  rw [← hpath] at hroom
  exact rememberFragment_follows hroom ht

/-- An inbound packet sets the verdict for `key` if it is a first fragment of it. -/
theorem inbound_follows {data : List UInt8} (hroom : (f.liveFragments now).size < MAX_FRAGMENTS)
    (huntaken : fragmentOf data = some (.first key) → f.takenBy data now = none) (ht : now ≤ t) :
    (f.inbound data now).1.follows key t =
      if fragmentOf data = some (.first key) then
        (f.inbound data now).2 && decide (t < now + FRAGMENT_SECS)
      else f.follows key t := by
  have hpurge := (maybePurge_swept f now).remembers
  have hstates := (maybePurge_swept f now).shrinks
  obtain ⟨ops, hpath, heq⟩ := inbound_path f data now
  rw [heq, ← hpurge.follows ht]
  rw [← hpurge] at hroom
  generalize (f.inbound data now).2 = verdict at hpath ⊢
  generalize f.maybePurge now = p at *
  cases hpath with
  | malformed hparse =>
    rw [if_neg (by rw [fragmentOf_error hparse]; exact nofun)]
    exact (run_remembers (by simp [Op.Keeps]) p).follows ht
  | followed hparse hlater | orphan hparse hlater =>
    rw [if_neg (by rw [fragmentOf_ok hparse, hlater]; exact nofun)]
    exact (run_remembers (by simp [Op.Keeps]) p).follows ht
  | @tracked packet flow state hparse _ hflow hlookup hexpires =>
    -- a live flow takes the packet, so it is no first fragment of `key`
    have htaken : f.takenBy data now = some state := by
      simp [takenBy, hparse, Except.toOption, hflow, hstates.states flow state hlookup, hexpires]
    rw [htaken] at huntaken
    rw [if_neg fun hfirst => nomatch huntaken hfirst]
    exact (run_remembers (by simp [Op.Keeps]) p).follows ht
  | quoted hparse | opened hparse | admitted hparse | denied hint hparse =>
    simp only [fragmentOf_ok hparse, Option.some.injEq]
    exact run_follows_remember (by simp +contextual [Op.Keeps, or_imp]) (fun _ => hroom) ht

/-- An outbound packet that is no first fragment of `key` leaves its verdict alone. -/
theorem outbound_follows {data : List UInt8}
    (hnot : fragmentOf data ≠ some (.first key)) (ht : now ≤ t) :
    (f.outbound data now).follows key t = f.follows key t := by
  obtain ⟨ops, hpath, heq⟩ := outbound_path f data now
  rw [heq, ← (maybePurge_swept f now).remembers.follows ht]
  generalize f.maybePurge now = p at *
  cases hpath with
  | malformed | followed | orphan => exact (run_remembers (by simp [Op.Keeps]) p).follows ht
  | tracked hparse | opened hparse | unkeyed hparse =>
    rw [fragmentOf_ok hparse, Ne, Option.some.injEq] at hnot
    rw [run_follows_remember (by simp [Op.Keeps]) (fun hfirst => absurd hfirst hnot) ht,
      if_neg hnot]

end Filter

open Filter

/-! ## Runs -/

/-- When a packet arrives or leaves. -/
def Call.time : Call → Option Nat
  | .inbound _ now => some now
  | .outbound _ now => some now
  | _ => none

/-- The live verdicts leave room when a packet comes. -/
def Call.Room (f : Filter) (call : Call) : Prop :=
  ∀ now ∈ call.time, (f.liveFragments now).size < MAX_FRAGMENTS

/-- This device sends no first fragment of `key`. -/
def Call.Unshared (key : FragmentKey) : Call → Prop
  | .outbound data _ => fragmentOf data ≠ some (.first key)
  | _ => True

/-- No live flow takes an inbound first fragment of `key`. -/
def Call.Untaken (key : FragmentKey) (f : Filter) : Call → Prop
  | .inbound data now => fragmentOf data = some (.first key) → f.takenBy data now = none
  | _ => True

/-- The call is a first fragment of `key`, let in at `start`. -/
def Call.Admits (key : FragmentKey) (start : Nat) (f : Filter) : Call → Prop
  | .inbound data now =>
    fragmentOf data = some (.first key) ∧ now = start ∧ (f.inbound data now).2
  | _ => False

/-- The call is neither an inbound first fragment of `key` nor a new policy. -/
def Call.Passes (key : FragmentKey) : Call → Prop
  | .inbound data _ => fragmentOf data ≠ some (.first key)
  | .setPolicy _ => False
  | _ => True

namespace Filter

/-- After a call the verdict for `key` is that of the first fragment it brought, or the one
before. -/
theorem step_follows {f : Filter} {t : Nat} {key : FragmentKey}
    {call : Call} (hroom : call.Room f) (hunshared : call.Unshared key)
    (huntaken : call.Untaken key f) (ht : ∀ now ∈ call.time, now ≤ t) :
    (f.step call).follows key t ↔
      (∃ start, call.Admits key start f ∧ t < start + FRAGMENT_SECS) ∨
        f.follows key t ∧ call.Passes key := by
  -- a call that brings no first fragment and keeps the verdicts
  have hkept : ∀ {g : Filter}, g.fragments = f.fragments →
      (g.follows key t ↔
        (∃ start, False ∧ t < start + FRAGMENT_SECS) ∨ f.follows key t ∧ True) := by
    intro g hg
    rw [(Remembers.of_eq hg).follows le_rfl]
    simp
  cases call with
  | inbound data now =>
    have hfollows := inbound_follows (hroom now rfl) huntaken (ht now rfl)
    rw [step, hfollows]
    by_cases hfirst : fragmentOf data = some (.first key)
    · simp [Call.Admits, Call.Passes, hfirst]
    · simp [Call.Admits, Call.Passes, hfirst]
  | outbound data now =>
    rw [step, outbound_follows hunshared (ht now rfl)]
    simp [Call.Admits, Call.Passes]
  | setPolicy policy =>
    simp [step, setPolicy, follows, liveFragments, Table.lookup_retain, Call.Admits, Call.Passes]
  | setTraffic enabled unixNow => exact hkept (setTraffic_fragments f enabled unixNow)
  | takeTraffic => exact hkept rfl
  | takeEvents => exact hkept (takeEvents_fragments f)
  | restoreEvents events => exact hkept (restoreEvents_fragments f events)

/-- Along a run, the verdict for `key` is the admission of its most recent first fragment. -/
theorem run_follows {t : Nat} {key : FragmentKey}
    (epochUnix : Int) (instanceId : Nat) {calls : List Call}
    (halong : Along step (fun f call => call.Room f ∧ call.Unshared key ∧ call.Untaken key f)
      (new epochUnix instanceId) calls)
    (ht : ∀ call ∈ calls, ∀ now ∈ call.time, now ≤ t) :
    (run step (new epochUnix instanceId) calls).follows key t ↔
      ∃ start, Since step (Call.Admits key start) (fun _ call => call.Passes key)
        (new epochUnix instanceId) calls ∧ t < start + FRAGMENT_SECS := by
  induction calls using List.reverseRecOn with
  | nil =>
    refine ⟨fun h => absurd h ?_, fun ⟨_, hsince, _⟩ => absurd hsince not_since_nil⟩
    simp [run_nil, follows, liveFragments, new, Table.lookup_retain]
  | append_singleton past call ih =>
    obtain ⟨hpast, ⟨hroom, hunshared, huntaken⟩, -⟩ := along_append.mp halong
    have hearlier := ih hpast fun c hc => ht c (List.mem_append_left _ hc)
    have hnow := ht call (List.mem_append_right _ (List.mem_singleton_self call))
    rw [run_snoc, step_follows hroom hunshared huntaken hnow, hearlier]
    simp only [since_snoc_iff, or_and_right, exists_or]
    refine or_congr_right ⟨?_, ?_⟩
    · rintro ⟨⟨start, hsince, hlate⟩, hpasses⟩
      exact ⟨start, ⟨hsince, hpasses⟩, hlate⟩
    · rintro ⟨start, ⟨hsince, hpasses⟩, hlate⟩
      exact ⟨⟨start, hsince, hlate⟩, hpasses⟩

/-- **Later fragments**: in every run in which the live verdicts leave room, this device sends no
first fragment of `key` and no live flow takes an inbound one, a later fragment that arrives at
`t` gets in exactly when the most recent first fragment of its key got in less than
`FRAGMENT_SECS` before and no policy was installed since. -/
theorem later_follows_first (epochUnix : Int) (instanceId : Nat) (calls : List Call)
    (key : FragmentKey) (data : List UInt8) (t : Nat)
    (hlater : fragmentOf data = some (.later key))
    (ht : ∀ call ∈ calls, ∀ now ∈ call.time, now ≤ t)
    (halong : Along step (fun f call => call.Room f ∧ call.Unshared key ∧ call.Untaken key f)
      (new epochUnix instanceId) calls) :
    ((run step (new epochUnix instanceId) calls).inbound data t).2 ↔
      ∃ start, Since step (Call.Admits key start) (fun _ call => call.Passes key)
        (new epochUnix instanceId) calls ∧ t < start + FRAGMENT_SECS := by
  rw [← run_follows epochUnix instanceId halong ht]
  generalize run step (new epochUnix instanceId) calls = f
  rw [← (maybePurge_swept f t).remembers.follows (Nat.le_refl t)]
  unfold inbound
  split
  · next e hparse =>
    rw [fragmentOf_error hparse] at hlater
    exact nomatch hlater
  · next packet hparse =>
    rw [fragmentOf_ok hparse, Option.some.injEq] at hlater
    split
    · next later hfound =>
      obtain rfl := Fragment.later.inj (hfound.symm.trans hlater)
      rw [laterFragment_allow]
    · next hnot => exact absurd hlater (hnot key)

end Filter

/-! ## Fragments of one connection -/

/-- A first fragment of a segment from `100.64.0.2` to port 22 here. -/
def sshFirst : List UInt8 := ((tcpSegment 2 1 40000 22 0x10).set 5 7).set 6 0x20

/-- A later fragment of the same datagram. -/
def sshLater : List UInt8 := ((tcpSegment 2 1 40000 22 0x10).set 5 7).set 7 5

/-- The key the two share. -/
def sshDatagram : FragmentKey := ⟨.v4 0x64400002, .v4 0x64400001, TCP, 7⟩

instance Call.Room.decidable (f : Filter) : ∀ call : Call, Decidable (call.Room f)
  | .inbound _ now | .outbound _ now =>
    decidable_of_iff ((f.liveFragments now).size < MAX_FRAGMENTS)
      ⟨fun h _ heq => Option.some.inj heq ▸ h, fun h => h now rfl⟩
  | .setPolicy _ | .setTraffic _ _ | .takeTraffic | .takeEvents | .restoreEvents _ =>
    isTrue nofun

instance Call.Unshared.decidable (key : FragmentKey) : ∀ call : Call, Decidable (call.Unshared key)
  | .outbound data _ => inferInstanceAs (Decidable (fragmentOf data ≠ some (.first key)))
  | .inbound _ _ | .setPolicy _ | .setTraffic _ _ | .takeTraffic | .takeEvents
  | .restoreEvents _ => isTrue trivial

instance Call.Untaken.decidable (key : FragmentKey) (f : Filter) :
    ∀ call : Call, Decidable (call.Untaken key f)
  | .inbound data now =>
    decidable_of_iff (fragmentOf data = some (.first key) → (f.takenBy data now).isNone)
      (imp_congr_right fun _ => Option.isNone_iff_eq_none)
  | .outbound _ _ | .setPolicy _ | .setTraffic _ _ | .takeTraffic | .takeEvents
  | .restoreEvents _ => isTrue trivial

/-- A datagram that opens its connection: its later fragment follows it. -/
theorem later_follows_first_opening :
    let calls := [Call.setPolicy (tcpGrant "22"), .inbound sshFirst 1]
    ((run step (new 0 0) calls).inbound sshLater 6).2 := by
  intro calls
  have halong : Along step
      (fun f call => call.Room f ∧ call.Unshared sshDatagram ∧ call.Untaken sshDatagram f)
      (new 0 0) calls := by decide +kernel
  have hadmitted : ((run step (new 0 0) [.setPolicy (tcpGrant "22")]).inbound
      sshFirst 1).2 := by decide +kernel
  refine (later_follows_first 0 0 calls sshDatagram sshLater 6 (by decide +kernel)
    (by decide) halong).mpr ⟨1, ?_, by decide⟩
  exact ⟨[.setPolicy (tcpGrant "22")], .inbound sshFirst 1, [], rfl,
    ⟨by decide +kernel, rfl, hadmitted⟩, trivial⟩

/-- Within an established connection the later fragment is dropped, though its first fragment
was just let in, the table has room and this device sent nothing. -/
theorem later_dropped_established :
    let calls := [Call.setPolicy (tcpGrant "22"), .inbound (tcpSegment 2 1 40000 22 0x02) 1,
      .inbound sshFirst 2]
    fragmentOf sshLater = some (.later sshDatagram) ∧
    Along step (fun f call => call.Room f ∧ call.Unshared sshDatagram) (new 0 0)
      calls ∧
    Since step (Call.Admits sshDatagram 2) (fun _ call => call.Passes sshDatagram)
      (new 0 0) calls ∧
    ((run step (new 0 0) calls).inbound sshLater 2).2 = false := by
  have hadmitted : ((run step (new 0 0)
      [.setPolicy (tcpGrant "22"), .inbound (tcpSegment 2 1 40000 22 0x02) 1]).inbound
        sshFirst 2).2 := by decide +kernel
  refine ⟨by decide +kernel, by decide +kernel, ?_, by decide +kernel⟩
  exact ⟨[.setPolicy (tcpGrant "22"), .inbound (tcpSegment 2 1 40000 22 0x02) 1],
    .inbound sshFirst 2, [], rfl, ⟨by decide +kernel, rfl, hadmitted⟩, trivial⟩

end BlakTail.Dataplane
