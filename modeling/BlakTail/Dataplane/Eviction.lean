import BlakTail.Dataplane.Paths

/-!
# The Eviction Order

Flows leave the table by expiry, by a new policy and by eviction, and none of these takes
their pairs out of the queue.  The queue still finds the oldest flow: each insertion takes
the next number, so a pair whose number is not the one its key has now is stale.
-/

namespace BlakTail.Dataplane

open Foundation

namespace Filter

variable {f g : Filter}

/-- The number under which the flow of `key` entered the table. -/
def stamp (f : Filter) (key : FlowKey) : Option Nat := (f.states.lookup key).map State.generation

/-- The queue is in order of insertion and lists every flow of the table. -/
structure Listed (f : Filter) : Prop where
  ascending : (f.order.map Prod.snd).Pairwise (· < ·)
  numbered : ∀ pair ∈ f.order, pair.2 ≤ f.generation
  listed : ∀ key n, f.stamp key = some n → (key, n) ∈ f.order

/-- Table and queue are bounded as well. -/
structure Ordered (f : Filter) : Prop extends Listed f where
  states : f.states.size ≤ MAX_STATES
  order : f.order.length ≤ 2 * MAX_STATES

theorem mem_liveOrder {pair : FlowKey × Nat} :
    pair ∈ f.liveOrder ↔ pair ∈ f.order ∧ f.stamp pair.1 = some pair.2 := by
  obtain ⟨key, n⟩ := pair
  unfold liveOrder stamp
  cases hlookup : f.states.lookup key <;> simp [hlookup]

theorem Listed.nodup (hf : Listed f) : f.order.Nodup :=
  List.Nodup.of_map Prod.snd (hf.ascending.imp ne_of_lt)

/-- The queue without its stale pairs is no longer than the table. -/
theorem Listed.liveOrder_length (hf : Listed f) : f.liveOrder.length ≤ f.states.size := by
  have hsub : f.liveOrder ⊆ f.states.entries.map fun e => (e.1, e.2.generation) := by
    intro pair hpair
    obtain ⟨state, hlookup, hnumber⟩ := Option.map_eq_some_iff.mp (mem_liveOrder.mp hpair).2
    exact List.mem_map.mpr ⟨_, Table.lookup_eq_some_iff.mp hlookup, by rw [hnumber]⟩
  have hle := (List.subperm_of_subset (hf.nodup.filter _) hsub).length_le
  rwa [List.length_map] at hle

/-- A filter that only loses flows and stale pairs. -/
theorem Listed.shrink (hf : Listed f) (hgeneration : g.generation = f.generation)
    (hstamp : ∀ key n, g.stamp key = some n → f.stamp key = some n)
    (horder : g.order.Sublist f.order)
    (hlisted : ∀ pair ∈ f.order, g.stamp pair.1 = some pair.2 → pair ∈ g.order) : Listed g := by
  refine ⟨hf.ascending.sublist (horder.map _), fun pair hpair => ?_, fun key n hn => ?_⟩
  · rw [hgeneration]
    exact hf.numbered pair (horder.subset hpair)
  · exact hlisted _ (hf.listed key n (hstamp key n hn)) hn

theorem Listed.tidied (hf : Listed f) (full : Prop) [Decidable full] :
    Listed { f with order := if full then f.liveOrder else f.order } := by
  refine hf.shrink rfl (fun _ _ h => h) ?_ fun pair hpair hstamp => ?_
  · split
    · exact List.filter_sublist
    · exact List.Sublist.refl _
  · split
    · exact mem_liveOrder.mpr ⟨hpair, hstamp⟩
    · exact hpair

/-- An operation keeps the order, and a flow has the number it had or a new one. -/
def Advances (f g : Filter) : Prop :=
  Ordered f → Ordered g ∧ f.generation ≤ g.generation ∧
    ∀ key n, g.stamp key = some n → f.stamp key = some n ∨ f.generation < n

theorem Advances.refl (f : Filter) : Advances f f :=
  fun hf => ⟨hf, le_rfl, fun _ _ h => .inl h⟩

theorem Advances.trans {h : Filter} (hfg : Advances f g) (hgh : Advances g h) : Advances f h := by
  intro hf
  obtain ⟨hg, hle, hnumber⟩ := hfg hf
  obtain ⟨hh, hle', hnumber'⟩ := hgh hg
  refine ⟨hh, hle.trans hle', fun key n hn => ?_⟩
  rcases hnumber' key n hn with hn | hn
  · exact hnumber key n hn
  · exact .inr (hle.trans_lt hn)

/-- What keeps the queue and the numbers of flows advances. -/
theorem advances_of_keep (hgeneration : g.generation = f.generation) (horder : g.order = f.order)
    (hsize : g.states.size ≤ f.states.size)
    (hstamp : ∀ key n, g.stamp key = some n → f.stamp key = some n) : Advances f g := by
  refine fun hf => ⟨⟨?_, hsize.trans hf.states, horder ▸ hf.order⟩, hgeneration.ge,
    fun key n hn => .inl (hstamp key n hn)⟩
  exact hf.toListed.shrink hgeneration hstamp (horder ▸ List.Sublist.refl _) fun _ h _ => horder ▸ h

theorem stamp_of_sub (hsub : Table.Sub g.states f.states) (key : FlowKey) (n : Nat)
    (hn : g.stamp key = some n) : f.stamp key = some n := by
  obtain ⟨state, hlookup, rfl⟩ := Option.map_eq_some_iff.mp hn
  exact Option.map_eq_some_iff.mpr ⟨state, hsub key state hlookup, rfl⟩

/-! ## Operations -/

theorem retainStates_advances (f : Filter) (keep : FlowKey → State → Bool) :
    Advances f (f.retainStates keep) := by
  rw [retainStates_eq]
  exact advances_of_keep rfl rfl (List.length_filter_le _ _) (stamp_of_sub (Table.retain_sub _ _))

theorem purge_advances (f : Filter) (now : Nat) : Advances f (f.purge now) := by
  obtain ⟨g, hg, heq⟩ := purge_eq f now
  have hsweep : Advances f g := by
    rw [hg]
    exact (retainStates_advances f _).trans (advances_of_keep rfl rfl le_rfl fun _ _ h => h)
  intro hf
  obtain ⟨hordered, hadvance⟩ := hsweep hf
  rw [heq]
  refine ⟨⟨hordered.toListed.tidied _, hordered.states, ?_⟩, hadvance⟩
  split
  · exact (List.length_filter_le _ _).trans hordered.order
  · exact hordered.order

/-- An eviction takes out one flow: the oldest, which is the first that is not stale in the
queue. -/
theorem evict_oldest {pending : List (FlowKey × Nat)}
    (hascending : (pending.map Prod.snd).Pairwise (· < ·))
    (hlisted : ∀ key n, f.stamp key = some n → (key, n) ∈ pending)
    (hfull : f.states.size = MAX_STATES) :
    ∃ oldest state rest, f.states.lookup oldest = some state ∧
      rest.Sublist pending ∧
      f.evict pending =
        { f with states := f.states.erase oldest, order := rest }.pushed
          (f.endEvent oldest state).toList ∧
      ∀ key n, f.stamp key = some n → key ≠ oldest → state.generation < n ∧ (key, n) ∈ rest := by
  induction pending with
  | nil =>
    -- an empty queue lists an empty table, which is not full
    have hnone : ∀ e ∈ f.states.entries, False := by
      intro e he
      have hstamp : f.stamp e.1 = some e.2.generation :=
        Option.map_eq_some_iff.mpr ⟨e.2, Table.lookup_eq_some_iff.mpr he, rfl⟩
      exact List.not_mem_nil (hlisted _ _ hstamp)
    rw [Table.size, List.eq_nil_iff_forall_not_mem.mpr hnone] at hfull
    cases hfull
  | cons pair rest ih =>
    obtain ⟨oldest, number⟩ := pair
    rw [List.map_cons, List.pairwise_cons] at hascending
    have hnot : ¬f.states.size < MAX_STATES := by omega
    by_cases hstale : f.stamp oldest = some number
    · obtain ⟨state, hlookup, hnumber⟩ := Option.map_eq_some_iff.mp hstale
      have hroom : Table.size (f.states.erase oldest) < MAX_STATES := by
        have hsize := f.states.size_erase oldest
        rw [hlookup, hfull] at hsize
        exact Nat.lt_of_succ_le hsize.le
      refine ⟨oldest, state, rest, hlookup, List.sublist_cons_self _ _, ?_, fun key n hn hne => ?_⟩
      · rw [evict, if_neg hnot, hlookup]
        dsimp only
        rw [if_pos hnumber, ended_eq]
        -- there is room now, so the loop ends here
        cases rest with
        | nil => rfl
        | cons next rest =>
          exact if_pos hroom
      · have hrest : (key, n) ∈ rest :=
          (List.mem_cons.mp (hlisted key n hn)).resolve_left fun heq => hne (congrArg Prod.fst heq)
        exact ⟨hnumber ▸ hascending.1 n (List.mem_map_of_mem hrest), hrest⟩
    · have hskip : f.evict ((oldest, number) :: rest) = f.evict rest := by
        rw [evict, if_neg hnot]
        cases hlookup : f.states.lookup oldest with
        | none => rfl
        | some state =>
          refine if_neg fun hnumber => hstale ?_
          rw [stamp, hlookup, ← hnumber]
          rfl
      have hlisted' : ∀ key n, f.stamp key = some n → (key, n) ∈ rest := by
        intro key n hn
        refine (List.mem_cons.mp (hlisted key n hn)).resolve_left fun heq => hstale ?_
        cases heq
        exact hn
      obtain ⟨found, state, kept, hlookup, hsub, heq, hyounger⟩ := ih hascending.2 hlisted'
      exact ⟨found, state, kept, hlookup, hsub.trans (List.sublist_cons_self _ _),
        hskip.trans heq, hyounger⟩

theorem sweepFull_advances (f : Filter) (now : Nat) : Advances f (f.sweepFull now) := by
  unfold sweepFull
  split
  · exact purge_advances f now
  · exact Advances.refl f

/-- Room is made by the sweep, or else by taking out the oldest flow. -/
theorem makeRoom_cases (hf : Ordered f) (now : Nat) :
    ((f.sweepFull now).states.size < MAX_STATES ∧ f.makeRoom now = f.sweepFull now) ∨
      (f.sweepFull now).states.size = MAX_STATES ∧ ∃ oldest state rest,
        (f.sweepFull now).states.lookup oldest = some state ∧
        rest.Sublist (f.sweepFull now).order ∧
        f.makeRoom now = { f.sweepFull now with
          states := (f.sweepFull now).states.erase oldest
          order := rest }.pushed ((f.sweepFull now).endEvent oldest state).toList ∧
        ∀ key n, (f.sweepFull now).stamp key = some n → key ≠ oldest →
          state.generation < n ∧ (key, n) ∈ rest := by
  have hsweep := (sweepFull_advances f now hf).1
  unfold makeRoom
  dsimp only
  split
  · next hfull =>
    have hfull := Nat.le_antisymm hsweep.states hfull
    exact .inr ⟨hfull, evict_oldest hsweep.ascending hsweep.listed hfull⟩
  · next hroom => exact .inl ⟨not_le.mp hroom, rfl⟩

theorem makeRoom_advances (hf : Ordered f) (now : Nat) :
    Advances f (f.makeRoom now) ∧ (f.makeRoom now).states.size < MAX_STATES := by
  have hsweep := sweepFull_advances f now
  rcases makeRoom_cases hf now with
    ⟨hroom, heq⟩ | ⟨hfull, oldest, state, rest, hlookup, hrest, heq, hyounger⟩
  · exact heq.symm ▸ ⟨hsweep, hroom⟩
  · have hsize := (f.sweepFull now).states.size_erase oldest
    rw [hlookup, hfull] at hsize
    have hroom : Table.size ((f.sweepFull now).states.erase oldest) < MAX_STATES :=
      Nat.lt_of_succ_le hsize.le
    have hsub := Table.erase_sub (f.sweepFull now).states oldest
    rw [heq]
    refine ⟨hsweep.trans fun hswept => ⟨⟨?_, hroom.le, hrest.length_le.trans hswept.order⟩, le_rfl,
      fun key n hn => .inl (stamp_of_sub hsub key n hn)⟩, hroom⟩
    refine hswept.toListed.shrink rfl (stamp_of_sub hsub) hrest ?_
    rintro ⟨key, n⟩ - hn
    refine (hyounger key n (stamp_of_sub hsub key n hn) ?_).2
    rintro rfl
    rw [stamp, pushed, AList.lookup_erase] at hn
    cases hn

variable (f)

theorem stamp_entered (key other : FlowKey) (state : State) (now : Nat) :
    (f.entered key state now).stamp other =
      if other = key then some (f.generation + 1) else f.stamp other := by
  unfold stamp entered pushed
  rw [Table.lookup_insert_if]
  split
  · rfl
  · rfl

/-- An insert keeps the eviction order ascending, complete and short. -/
theorem insert_advances (key : FlowKey) (state : State) (now : Nat) :
    Advances f (f.insert key state now) := by
  intro hf
  obtain ⟨hadvance, hsize⟩ := makeRoom_advances hf now
  refine hadvance.trans (fun hroom => ?_) hf
  obtain ⟨g, hg, heq⟩ := insert_eq f key state now
  have horder : g.order = (f.makeRoom now).order ++ [(key, (f.makeRoom now).generation + 1)] := by
    rw [hg]
    rfl
  have hgeneration : g.generation = (f.makeRoom now).generation + 1 := by
    rw [hg]
    rfl
  have hstates : g.states.size ≤ MAX_STATES := by
    have hinsert := (f.makeRoom now).states.size_insert key ((f.makeRoom now).numbered state now)
    rw [hg]
    change Table.size ((f.makeRoom now).states.insert key _) ≤ _
    omega
  -- the new flow has the highest number, so the order stays ascending at its end
  have hlisted : Listed g := by
    refine ⟨?_, fun pair hpair => ?_, fun other n hn => ?_⟩
    · rw [horder, List.map_append, List.pairwise_append]
      refine ⟨hroom.ascending, List.pairwise_singleton _ _, fun n hn last hlast => ?_⟩
      obtain ⟨pair, hpair, rfl⟩ := List.mem_map.mp hn
      rw [List.mem_singleton.mp hlast]
      exact Nat.lt_succ_of_le (hroom.numbered pair hpair)
    · rw [horder, List.mem_append, List.mem_singleton] at hpair
      rw [hgeneration]
      rcases hpair with hpair | rfl
      · exact Nat.le_succ_of_le (hroom.numbered pair hpair)
      · exact le_rfl
    · rw [hg, stamp_entered] at hn
      rw [horder, List.mem_append, List.mem_singleton]
      split at hn
      · next hkey =>
        cases hn
        exact .inr (hkey ▸ rfl)
      · exact .inl (hroom.listed other n hn)
  -- an order that grew too long is cut to the live flows, of which there are few
  have hshort : (if MAX_STATES * 2 < g.order.length then g.liveOrder else g.order).length ≤
      2 * MAX_STATES := by
    split
    · have hlive := hlisted.liveOrder_length
      omega
    · omega
  rw [heq]
  refine ⟨⟨hlisted.tidied _, hstates, hshort⟩, hgeneration.symm ▸ Nat.le_succ _,
    fun other n hn => ?_⟩
  change g.stamp other = some n at hn
  rw [hg, stamp_entered] at hn
  split at hn
  · cases hn
    exact .inr (Nat.lt_succ_self _)
  · exact .inl hn

theorem apply_advances (op : Op) : Advances f (f.apply op) := by
  cases op with
  | forget key =>
    simp only [apply]
    split
    · have hsize := f.states.size_erase key
      rw [ended_eq]
      exact advances_of_keep rfl rfl (le_of_add_le_left hsize.le)
        (stamp_of_sub (Table.erase_sub _ _))
    · exact Advances.refl f
  | insert key state now => exact insert_advances f key state now
  | refresh key packet via now =>
    simp only [apply]
    split
    · next state hlookup =>
      have hsize := f.states.size_insert key (state.refresh packet via now)
      rw [hlookup] at hsize
      refine advances_of_keep rfl rfl (Nat.le_of_succ_le_succ hsize.le) fun other n hn => ?_
      unfold stamp at hn ⊢
      rw [Table.lookup_insert_if] at hn
      split at hn
      · next hother =>
        rw [hother, hlookup]
        exact hn
      · exact hn
    · exact Advances.refl f
  | count key len =>
    obtain ⟨_, _, heq⟩ := count_eq f key len
    rw [apply, heq]
    exact advances_of_keep rfl rfl le_rfl fun _ _ h => h
  | drop packet peer hint now =>
    obtain ⟨_, _, _, -, heq⟩ := dropped_eq f packet peer hint now
    rw [apply, heq]
    exact advances_of_keep rfl rfl le_rfl fun _ _ h => h
  | remember packet allow counter now =>
    obtain ⟨_, heq⟩ := rememberFragment_eq f packet allow counter now
    rw [apply, heq]
    exact advances_of_keep rfl rfl le_rfl fun _ _ h => h

/-! ## Calls -/

theorem maybePurge_advances (now : Nat) : Advances f (f.maybePurge now) := by
  unfold maybePurge
  split
  · exact purge_advances f now
  · exact Advances.refl f

theorem ops_advance (ops : List Op) : Advances f (run apply f ops) :=
  run_invariant (fun _ op hfg => hfg.trans (apply_advances _ op)) ops (Advances.refl f)

/-- Every call on the filter keeps the order. -/
theorem step_advances (call : Call) : Advances f (f.step call) := by
  cases call with
  | inbound data now =>
    obtain ⟨ops, -, heq⟩ := inbound_path f data now
    rw [step, heq]
    exact (maybePurge_advances f now).trans (ops_advance _ ops)
  | outbound data now =>
    obtain ⟨ops, -, heq⟩ := outbound_path f data now
    rw [step, heq]
    exact (maybePurge_advances f now).trans (ops_advance _ ops)
  | setPolicy policy =>
    have hinstalled : Advances f { f with policy := policy } :=
      advances_of_keep rfl rfl le_rfl fun _ _ h => h
    exact (hinstalled.trans (retainStates_advances _ _)).trans
      (advances_of_keep rfl rfl le_rfl fun _ _ h => h)
  | setTraffic enabled unixNow =>
    change Advances f (f.setTraffic enabled unixNow)
    unfold setTraffic
    split
    · -- bookkeeping is dropped from every flow; numbers stay
      refine advances_of_keep rfl rfl (List.length_map _).le fun key n hn => ?_
      unfold stamp at hn
      rw [Table.lookup_mapValues, Option.map_map] at hn
      exact hn
    split
    · exact advances_of_keep rfl rfl le_rfl fun _ _ h => h
    · exact Advances.refl f
  | takeTraffic => exact advances_of_keep rfl rfl le_rfl fun _ _ h => h
  | takeEvents =>
    change Advances f f.takeEvents.1
    unfold takeEvents
    split
    · exact Advances.refl f
    · exact advances_of_keep rfl rfl le_rfl fun _ _ h => h
  | restoreEvents events =>
    change Advances f (f.restoreEvents events)
    unfold restoreEvents
    split
    · exact Advances.refl f
    · exact advances_of_keep rfl rfl le_rfl fun _ _ h => h

/-- Room for a new flow comes from the sweep; where that leaves the table full, from the one
flow that entered before all others. -/
def EvictsOldest (now : Nat) : Prop :=
  ((f.sweepFull now).states.size < MAX_STATES ∧ f.makeRoom now = f.sweepFull now) ∨
    (f.sweepFull now).states.size = MAX_STATES ∧ ∃ oldest n,
      (f.sweepFull now).stamp oldest = some n ∧
      (f.makeRoom now).states = (f.sweepFull now).states.erase oldest ∧
      ∀ key m, (f.sweepFull now).stamp key = some m → key ≠ oldest → n < m

variable {f}

theorem Ordered.evictsOldest (hf : Ordered f) (now : Nat) : f.EvictsOldest now := by
  refine (makeRoom_cases hf now).imp_right ?_
  rintro ⟨hfull, oldest, state, rest, hlookup, -, heq, hyounger⟩
  refine ⟨hfull, oldest, state.generation, ?_, ?_, fun key m hm hne => (hyounger key m hm hne).1⟩
  · rw [stamp, hlookup]
    rfl
  · rw [heq]
    rfl

theorem touch_advances (f : Filter) (key : FlowKey) (packet : Packet) (via : Direction)
    (now : Nat) : Advances f (f.touch key packet via now).1 := by
  cases hlive : f.live key now with
  | true =>
    obtain ⟨state, hlookup, hexpires⟩ := (Option.any_eq_true _ _).mp hlive
    rw [touch_live hlookup (of_decide_eq_true hexpires)]
    exact ops_advance f _
  | false =>
    rw [touch_dead hlive]
    exact apply_advances f (.forget key)

end Filter

/-- **Flow table** in every run.  The table and its queue are bounded; every flow is listed
once under its own number, and the queue is in order of numbers.  A flow keeps its number, and
those that enter take higher ones.  A flow is entered after a packet found none live under its
key, and where the table is full then even after the sweep, the flow that entered first goes. -/
theorem flows_bounded_and_ordered (epochUnix : Int) (instanceId : Nat) (calls : List Call) :
    let f := run Filter.step (.new epochUnix instanceId) calls
    f.states.size ≤ MAX_STATES ∧ f.order.length ≤ 2 * MAX_STATES ∧
    (f.order.map Prod.snd).Pairwise (· < ·) ∧
    (∀ key state, f.states.lookup key = some state →
      f.order.count (key, state.generation) = 1) ∧
    (∀ call key n, (f.step call).stamp key = some n → f.stamp key = some n ∨ f.generation < n) ∧
    ∀ key packet via now, ((f.maybePurge now).touch key packet via now).1.EvictsOldest now := by
  intro f
  have hf : f.Ordered := run_invariant (fun g call hg => (g.step_advances call hg).1) calls
    ⟨⟨List.Pairwise.nil, fun _ h => (nomatch h), nofun⟩, Nat.zero_le _, Nat.zero_le _⟩
  refine ⟨hf.states, hf.order, hf.ascending, fun key state hlookup => ?_,
    fun call => (f.step_advances call hf).2.2, fun key packet via now => ?_⟩
  · have hstamp : f.stamp key = some state.generation := by
      rw [Filter.stamp, hlookup]
      rfl
    exact List.count_eq_one_of_mem hf.nodup (hf.listed _ _ hstamp)
  · have hpurged := (f.maybePurge_advances now hf).1
    exact (Filter.touch_advances _ key packet via now hpurged).1.evictsOldest now

end BlakTail.Dataplane
