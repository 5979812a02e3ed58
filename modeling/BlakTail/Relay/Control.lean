import BlakTail.Relay.Mobile

/-!
# The Control Queue of the Mobile Session

Registrations and probes are queued in pairs, and evicted and polled one at a time.
-/

namespace BlakTail.Relay

open Foundation

def Control.IsRegister (c : Control) : Prop := c.frame.head? = some REGISTER

def Control.IsPing (c : Control) : Prop := c.frame.head? = some PING

/-- A registration and a probe for the same relay over the same link. -/
structure Partners (register ping : Control) : Prop where
  registers : register.IsRegister
  pings : ping.IsPing
  link : register.link = ping.link
  endpoint : register.endpoint = ping.endpoint

theorem Partners.register_ne_ping {register ping : Control} (h : Partners register ping) :
    ¬register.IsPing := by
  intro hping
  have heq : some REGISTER = some PING := h.registers.symm.trans hping
  exact absurd heq (by decide)

/-! ## Pairs in a queue -/

/-- Whole pairs. -/
inductive Paired : List Control → Prop where
  | nil : Paired []
  | cons {register ping : Control} {rest : List Control} (hpair : Partners register ping)
      (hrest : Paired rest) : Paired (register :: ping :: rest)

variable {register ping : Control} {queue : List Control}

theorem Paired.even (h : Paired queue) : queue.length % 2 = 0 := by
  induction h with
  | nil => rfl
  | cons _ _ ih =>
    rw [List.length_cons, List.length_cons]
    omega

theorem Paired.snoc (h : Paired queue) (hpair : Partners register ping) :
    Paired (queue ++ [register, ping]) := by
  induction h with
  | nil => exact .cons hpair .nil
  | cons hfirst _ ih => exact .cons hfirst ih

/-- The queue when `last` was the last frame polled. -/
inductive Queued (last : Option Control) : List Control → Prop where
  | pairs {queue : List Control} (h : Paired queue) : Queued last queue
  | half {register ping : Control} {queue : List Control} (hlast : last = some register)
      (hpair : Partners register ping) (h : Paired queue) : Queued last (ping :: queue)

/-- The queue with a pair at its end, and the oldest frames gone if there was no room. -/
def pushed (queue : List Control) (register ping : Control) : List Control :=
  queue.drop (queue.length + 2 - MAX_QUEUED_CONTROL) ++ [register, ping]

theorem pushed_length (h : queue.length ≤ MAX_QUEUED_CONTROL) :
    (pushed queue register ping).length ≤ MAX_QUEUED_CONTROL := by
  unfold pushed
  unfold MAX_QUEUED_CONTROL at h ⊢
  rw [List.length_append, List.length_drop, List.length_cons, List.length_singleton]
  omega

/-- Where a frame must go the queue is full, so what goes is a whole pair or a lone probe. -/
theorem Queued.push {last : Option Control}
    (h : Queued last queue) (hroom : queue.length ≤ MAX_QUEUED_CONTROL)
    (hpair : Partners register ping) : Queued last (pushed queue register ping) := by
  unfold pushed
  unfold MAX_QUEUED_CONTROL at hroom ⊢
  cases h with
  | pairs h =>
    cases h with
    | nil => exact .pairs (.cons hpair .nil)
    | @cons _ _ rest hfirst hrest =>
      have heven := hrest.even
      rw [List.length_cons, List.length_cons] at hroom ⊢
      -- an even length of at most 16: nothing goes, or the first pair
      obtain hnone | hfull : rest.length + 1 + 1 + 2 - 16 = 0 ∨
          rest.length + 1 + 1 + 2 - 16 = 2 := by
        omega
      · rw [hnone]
        exact .pairs ((Paired.cons hfirst hrest).snoc hpair)
      · rw [hfull]
        exact .pairs (hrest.snoc hpair)
  | @half _ _ rest hlast hfirst hrest =>
    have heven := hrest.even
    rw [List.length_cons] at hroom ⊢
    obtain hnone | hfull : rest.length + 1 + 2 - 16 = 0 ∨ rest.length + 1 + 2 - 16 = 1 := by omega
    · rw [hnone]
      exact .half hlast hfirst (hrest.snoc hpair)
    · rw [hfull]
      exact .pairs (hrest.snoc hpair)

/-! ## Calls only push pairs -/

namespace MobileRelay

section Push

variable {P : List Control → Prop}
  (hpush : ∀ queue register ping, Partners register ping → P queue → P (pushed queue register ping))
  {s : MobileRelay} (h : P s.control)

include hpush h

theorem pushProbe_pushes (link : Link) (endpoint : String) :
    P (s.pushProbe link endpoint).control := by
  unfold pushProbe
  split_ifs
  · exact h
  · exact hpush _ _ _ ⟨rfl, rfl, rfl, rfl⟩ h

theorem queueRegistration_pushes : P s.queueRegistration.control := by
  unfold queueRegistration
  split
  · exact h
  · next active _ =>
    have hudp := pushProbe_pushes hpush h .udp active.endpoint
    split_ifs
    · exact pushProbe_pushes hpush hudp .wss active.endpoint
    · exact hudp

theorem activateChoice_pushes (now : Nat) : P (s.activateChoice now).control := by
  unfold activateChoice
  split
  · apply queueRegistration_pushes hpush
    exact h
  · exact h

theorem configure_pushes (token : Token) (expiresAtUnix : Nat) (relays : List RelayOption)
    (now : Nat) : P (s.configure token expiresAtUnix relays now).control := by
  unfold configure
  dsimp only
  split
  · split_ifs
    · apply queueRegistration_pushes hpush
      exact h
    · exact h
  · apply activateChoice_pushes hpush
    exact h

theorem observed_pushes (link : Link) (endpoint : String) (now : Nat) :
    P (s.observed link endpoint now).control := by
  unfold observed
  split
  · apply queueRegistration_pushes hpush
    exact h
  · unfold observedActive
    split
    · exact h
    · next active _ =>
      by_cases hanswers : answersFor active link endpoint
      · simp only [if_pos hanswers]
        exact h
      · simp only [if_neg hanswers]
        exact h

variable (active : Active)

theorem endRound_pushes (now : Nat) : P (s.endRound active now).control := by
  unfold endRound
  split_ifs
  · apply queueRegistration_pushes hpush
    exact h
  · exact h

theorem tickFailback_pushes (now : Nat) : P (s.tickFailback active now).control := by
  unfold tickFailback
  split
  · split_ifs
    · exact h
    · exact h
  · split
    · apply pushProbe_pushes hpush
      exact h
    · exact h

theorem tickActive_pushes (now : Nat) : P (s.tickActive active now).control := by
  unfold tickActive
  split_ifs
  · exact tickFailback_pushes hpush (endRound_pushes hpush h active now) active now
  · apply activateChoice_pushes hpush
    exact h

theorem tick_pushes (now : Nat) : P (s.tick now).control := by
  unfold tick
  split_ifs with hstopped hnone
  · exact h
  · have hstarted := activateChoice_pushes hpush h now
    dsimp only
    split
    · exact hstarted
    · exact tickActive_pushes hpush hstarted _ now
  · dsimp only
    split
    · exact h
    · exact tickActive_pushes hpush h _ now

theorem step_pushes {call : MobileCall} (hcall : call ≠ .poll) : P (s.step call).control := by
  cases call with
  | configure token expiresAtUnix relays now =>
    exact configure_pushes hpush h token expiresAtUnix relays now
  | setPeer publicKey id hasDirect =>
    change P (s.setPeer publicKey id hasDirect).control
    unfold setPeer
    split
    · exact h
    · split_ifs
      · exact h
      · exact h
  | beginPeerRefresh | endPeerRefresh => exact h
  | outbound key now =>
    change P (s.outbound key now).1.control
    unfold outbound
    split
    · exact h
    · exact h
  | directReceived key =>
    change P (s.directReceived key).control
    unfold directReceived
    split
    · exact h
    · exact h
  | inbound data link endpoint now =>
    change P (s.inbound data link endpoint now).1.control
    unfold inbound
    split
    · exact observed_pushes hpush h link endpoint now
    · exact h
  | tick now => exact tick_pushes hpush h now
  | poll => exact absurd rfl hcall

end Push

/-! ## Polled frames -/

/-- The frame a call hands to the platform. -/
def polled (s : MobileRelay) : MobileCall → List Control
  | .poll => s.poll.2.toList
  | _ => []

/-- Every probe among the frames comes right after its registration. -/
def Followed (frames : List Control) : Prop :=
  ∀ before ping after, frames = before ++ ping :: after → ping.IsPing →
    ∃ earlier register, before = earlier ++ [register] ∧ Partners register ping

/-- What holds once the frames `past` were polled. -/
structure Tidy (past : List Control) (s : MobileRelay) : Prop where
  room : s.control.length ≤ MAX_QUEUED_CONTROL
  queue : Queued past.getLast? s.control
  followed : Followed past

theorem Followed.snoc {frames : List Control} (h : Followed frames) {frame : Control}
    (hframe : frame.IsPing → ∃ register, frames.getLast? = some register ∧
      Partners register frame) :
    Followed (frames ++ [frame]) := by
  intro before ping after hsplit hping
  rcases snoc_eq_split_iff.mp hsplit with ⟨rfl, rfl, rfl⟩ | ⟨rest, rfl, rfl⟩
  · obtain ⟨register, hlast, hpair⟩ := hframe hping
    obtain ⟨earlier, rfl⟩ := List.getLast?_eq_some_iff.mp hlast
    exact ⟨earlier, register, rfl, hpair⟩
  · exact h before ping rest rfl hping

theorem poll_tidy {past : List Control} {s : MobileRelay} (h : Tidy past s) :
    Tidy (past ++ s.poll.2.toList) s.poll.1 := by
  obtain ⟨hroom, hqueue, hfollowed⟩ := h
  unfold poll
  generalize hcontrol : s.control = control at hroom hqueue
  cases hqueue with
  | pairs hpaired =>
    cases hpaired with
    | nil =>
      rw [List.head?_nil, Option.toList_none, List.append_nil]
      exact ⟨Nat.zero_le _, .pairs .nil, hfollowed⟩
    | cons hpair hrest =>
      -- the registration goes, and its probe is next
      exact ⟨Nat.le_of_succ_le hroom, .half List.getLast?_concat hpair hrest,
        hfollowed.snoc fun hping => absurd hping hpair.register_ne_ping⟩
  | half hlast hpair hrest =>
    exact ⟨Nat.le_of_succ_le hroom, .pairs hrest, hfollowed.snoc fun _ => ⟨_, hlast, hpair⟩⟩

theorem step_tidy (past : List Control) (s : MobileRelay) (call : MobileCall) (h : Tidy past s) :
    Tidy (past ++ s.polled call) (s.step call) := by
  by_cases hcall : call = .poll
  · subst hcall
    exact poll_tidy h
  · have hnone : s.polled call = [] := by
      cases call with
      | poll => exact absurd rfl hcall
      | _ => rfl
    have hkept : (s.step call).control.length ≤ MAX_QUEUED_CONTROL ∧
        Queued past.getLast? (s.step call).control :=
      step_pushes
        (P := fun queue => queue.length ≤ MAX_QUEUED_CONTROL ∧ Queued past.getLast? queue)
        (fun _ _ _ hpair hqueue => ⟨pushed_length hqueue.1, hqueue.2.push hqueue.1 hpair⟩)
        ⟨h.room, h.queue⟩ hcall
    rw [hnone, List.append_nil]
    exact ⟨hkept.1, hkept.2, h.followed⟩

end MobileRelay

/-- In every run the control queue stays within its bound, and every probe that is polled comes
right after the registration of the same relay over the same link. -/
theorem pings_follow_registrations (selfId : NodeId) (allowWss : Bool) (calls : List MobileCall) :
    (run MobileRelay.step (.new selfId allowWss) calls).control.length ≤ MAX_QUEUED_CONTROL ∧
    ∀ before ping after,
      outputs MobileRelay.step MobileRelay.polled (.new selfId allowWss) calls =
        before ++ ping :: after →
      ping.IsPing → ∃ earlier register, before = earlier ++ [register] ∧
        register.IsRegister ∧ register.link = ping.link ∧ register.endpoint = ping.endpoint := by
  have hstart : MobileRelay.Tidy [] (.new selfId allowWss) :=
    ⟨Nat.zero_le _, .pairs .nil, fun before _ _ hsplit => absurd hsplit.symm (by simp)⟩
  have h := run_outputs MobileRelay.step_tidy hstart calls
  refine ⟨h.room, fun before ping after hsplit hping => ?_⟩
  obtain ⟨earlier, register, hbefore, hpair⟩ := h.followed before ping after hsplit hping
  exact ⟨earlier, register, hbefore, hpair.registers, hpair.link, hpair.endpoint⟩

end BlakTail.Relay
