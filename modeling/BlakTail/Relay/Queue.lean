import BlakTail.Relay.Mobile

/-!
# What a Session Queues

The hub keeps one address per node, so the last REGISTER decides from which link a client may send.
This module follows the registrations through the session's control queue.
-/

namespace BlakTail.Relay

open Foundation

/-! ## Frames in the order sent -/

structure Flying where
  link : Link
  data : List UInt8
  deriving DecidableEq

def Flying.isRegister (frame : Flying) : Bool := frame.data.head? = some REGISTER

def Flying.isSend (frame : Flying) : Bool := frame.data.head? = some SEND

/-- The link of the last REGISTER, where `known` is the link of the last one before these frames. -/
def lastRegister (known : Option Link) (frames : List Flying) : Option Link :=
  frames.foldl (fun known frame => if frame.isRegister then some frame.link else known) known

theorem lastRegister_append (known : Option Link) (older newer : List Flying) :
    lastRegister known (older ++ newer) = lastRegister (lastRegister known older) newer :=
  List.foldl_append

theorem lastRegister_cons_other {known : Option Link} {frames : List Flying} {frame : Flying}
    (hother : frame.isRegister = false) :
    lastRegister known (frame :: frames) = lastRegister known frames := by
  rw [lastRegister, List.foldl_cons, if_neg (Bool.eq_false_iff.mp hother)]
  rfl

/-- Frames that register nothing change nothing. -/
theorem lastRegister_others {known : Option Link} {frames : List Flying}
    (hothers : ∀ frame ∈ frames, frame.isRegister = false) :
    lastRegister known frames = known := by
  induction frames with
  | nil => rfl
  | cons frame frames ih =>
    obtain ⟨hother, hrest⟩ := List.forall_mem_cons.mp hothers
    rw [lastRegister_cons_other hother, ih hrest]

/-! ## The queue towards one relay -/

/-- The frames of a queue that go to `endpoint`, with their links. -/
def toward (endpoint : String) (queue : List Control) : List Flying :=
  (queue.filter fun control => control.endpoint = endpoint).map fun control =>
    ⟨control.link, control.frame⟩

@[simp] theorem toward_nil (endpoint : String) : toward endpoint [] = [] := rfl

@[simp] theorem toward_append (endpoint : String) (queue queue' : List Control) :
    toward endpoint (queue ++ queue') = toward endpoint queue ++ toward endpoint queue' := by
  rw [toward, List.filter_append, List.map_append]
  rfl

/-- No frame of the queue carries a payload. -/
def NoSends (queue : List Control) : Prop := ∀ control ∈ queue, control.frame.head? ≠ some SEND

theorem NoSends.append {queue queue' : List Control} (h : NoSends queue) (h' : NoSends queue') :
    NoSends (queue ++ queue') :=
  fun control hmem => (List.mem_append.mp hmem).elim (h control) (h' control)

theorem noSends_nil : NoSends [] := nofun

namespace MobileRelay

variable {s s' : MobileRelay} {m n : Nat} {active : Active}

def probe (s : MobileRelay) (link : Link) (endpoint : String) : List Control :=
  [⟨link, endpoint, registerFrame s.selfId s.expiresAtUnix s.token⟩,
   ⟨link, endpoint, pingFrame s.selfId⟩]

theorem lastRegister_probe (s : MobileRelay) (known : Option Link) (link : Link)
    (endpoint : String) :
    lastRegister known (toward endpoint (s.probe link endpoint)) = some link := by
  simp [toward, probe, lastRegister, Flying.isRegister, registerFrame, pingFrame, PING, REGISTER]

theorem noSends_probe (s : MobileRelay) (link : Link) (endpoint : String) :
    NoSends (s.probe link endpoint) := by
  intro control hmem
  rcases List.mem_pair.mp hmem with rfl | rfl
  · exact fun h => absurd (Option.some.inj h) (by decide)
  · exact fun h => absurd (Option.some.inj h) (by decide)

theorem toward_probe_ne (s : MobileRelay) (link : Link) {endpoint other : String}
    (hne : other ≠ endpoint) : toward endpoint (s.probe link other) = [] := by
  simp [toward, probe, hne]

/-- With room in the queue a probe is added at its end. -/
theorem pushProbe_control (hroom : s.control.length + 2 ≤ MAX_QUEUED_CONTROL) (link : Link)
    (endpoint : String) : (s.pushProbe link endpoint).control =
      s.control ++ if s.expiresAtUnix = 0 then [] else s.probe link endpoint := by
  unfold pushProbe
  split
  · rw [List.append_nil]
  · rw [Nat.sub_eq_zero_of_le hroom, List.drop_zero]
    rfl

/-- The link the session registers over last. -/
def registerLink (active : Active) : Link :=
  if active.ladder.link = .wss ∧ active.ladder.udpProven = false then .wss else .udp

/-- Of what was queued, the last registration with the active relay is over its link; or nothing
was queued for it, and it is the relay that was active before, registered over the same link. -/
def Covers (s : MobileRelay) (active : Active) (queued : List Control) : Prop :=
  (∀ known, lastRegister known (toward active.endpoint queued) = some (registerLink active)) ∨
  toward active.endpoint queued = [] ∧ s.expiresAtUnix ≠ 0 ∧
    ∃ before, s.active = some before ∧ before.endpoint = active.endpoint ∧
      registerLink before = registerLink active

/-- A call adds at most `n` control frames to the queue, and they cover the relay it leaves
active. -/
def Queues (n : Nat) (s s' : MobileRelay) : Prop :=
  ∃ queued, s'.control = s.control ++ queued ∧ queued.length ≤ n ∧ NoSends queued ∧
    ∀ active, s'.active = some active → s'.expiresAtUnix ≠ 0 → s.Covers active queued

theorem Queues.trans {s'' : MobileRelay}
    (h : Queues m s s') (h' : Queues n s' s'') : Queues (m + n) s s'' := by
  obtain ⟨queued, hcontrol, hlength, hsends, hcovers⟩ := h
  obtain ⟨queued', hcontrol', hlength', hsends', hcovers'⟩ := h'
  refine ⟨queued ++ queued', by rw [hcontrol', hcontrol, List.append_assoc], ?_,
    hsends.append hsends', ?_⟩
  · rw [List.length_append]
    exact Nat.add_le_add hlength hlength'
  · intro active hactive hlive
    rcases hcovers' active hactive hlive with
      hlast | ⟨hnothing, hlive', before, hbefore, hendpoint, hlink⟩
    · left
      intro known
      rw [toward_append, lastRegister_append, hlast]
    · -- nothing new for the relay: what the first call queued for it still counts
      have hsame := hcovers before hbefore hlive'
      unfold Covers at hsame ⊢
      rw [toward_append, hnothing, List.append_nil, ← hendpoint, ← hlink]
      exact hsame

/-- A call that queues nothing and leaves the relay on the link it registers over. -/
theorem Queues.of_same (hcontrol : s'.control = s.control)
    (hsame : ∀ active, s'.active = some active → s'.expiresAtUnix ≠ 0 → s.expiresAtUnix ≠ 0 ∧
      ∃ before, s.active = some before ∧ before.endpoint = active.endpoint ∧
        registerLink before = registerLink active) : Queues 0 s s' :=
  ⟨[], by rw [hcontrol, List.append_nil], Nat.le_refl 0, noSends_nil,
    fun active hactive hlive => .inr ⟨rfl, hsame active hactive hlive⟩⟩

/-- A call that leaves the relay alone. -/
theorem Queues.of_eq (hcontrol : s'.control = s.control) (hactive : s'.active = s.active)
    (hexpires : s'.expiresAtUnix = s.expiresAtUnix) : Queues 0 s s' :=
  .of_same hcontrol fun active hlookup hlive =>
    ⟨hexpires ▸ hlive, active, hactive ▸ hlookup, rfl, rfl⟩

theorem Queues.mono (h : Queues m s s') (hle : m ≤ n) : Queues n s s' := by
  obtain ⟨queued, hcontrol, hlength, hrest⟩ := h
  exact ⟨queued, hcontrol, hlength.trans hle, hrest⟩

theorem Queues.length_le (h : Queues n s s') : s'.control.length ≤ s.control.length + n := by
  obtain ⟨queued, hcontrol, hlength, -⟩ := h
  rw [hcontrol, List.length_append]
  exact Nat.add_le_add_left hlength _

/-! ## What each function queues -/

/-- A registration covers the active relay, whatever was active before. -/
theorem queueRegistration_queues {before : MobileRelay} (hcontrol : s.control = before.control)
    (hroom : before.control.length + 4 ≤ MAX_QUEUED_CONTROL) :
    Queues 4 before s.queueRegistration := by
  obtain ⟨control, heq⟩ := s.queueRegistration_eq
  have hactive : s.queueRegistration.active = s.active := by rw [heq]
  have hexpires : s.queueRegistration.expiresAtUnix = s.expiresAtUnix := by rw [heq]
  have hspace : s.control.length + 2 ≤ MAX_QUEUED_CONTROL := by rw [hcontrol]; omega
  unfold Queues
  rw [hactive, ← hcontrol]
  unfold queueRegistration
  cases hnow : s.active with
  | none =>
    exact ⟨[], (List.append_nil _).symm, Nat.zero_le 4, noSends_nil, nofun⟩
  | some active =>
    have hudp := pushProbe_control hspace .udp active.endpoint
    by_cases hlive : s.expiresAtUnix = 0
    · -- without a capability there is nothing to register
      have hnothing : ∀ (t : MobileRelay) link endpoint, t.expiresAtUnix = 0 →
          t.pushProbe link endpoint = t := fun t link endpoint h => if_pos h
      dsimp only
      rw [hnothing s .udp active.endpoint hlive, hnothing s .wss active.endpoint hlive, ite_self]
      exact ⟨[], (List.append_nil _).symm, Nat.zero_le 4, noSends_nil,
        fun _ _ h => absurd hlive h⟩
    · rw [if_neg hlive] at hudp
      dsimp only
      split_ifs with hwss
      · -- both links are probed; the WebSocket one comes last and carries the registration
        obtain ⟨queue, hprobed⟩ := s.pushProbe_eq .udp active.endpoint
        rw [hprobed] at hudp ⊢
        subst hudp
        have hmore : (s.control ++ s.probe .udp active.endpoint).length + 2 ≤
            MAX_QUEUED_CONTROL := by
          rw [List.length_append, hcontrol]
          exact hroom
        rw [pushProbe_control hmore, if_neg hlive]
        refine ⟨_, List.append_assoc _ _ _, Nat.le_refl 4,
          (s.noSends_probe _ _).append (noSends_probe _ _ _),
          fun a ha _ => .inl fun known => ?_⟩
        cases ha
        rw [toward_append, lastRegister_append]
        exact (lastRegister_probe _ _ _ _).trans (by rw [registerLink, if_pos hwss])
      · refine ⟨_, hudp, Nat.le_add_right 2 2, s.noSends_probe _ _,
          fun a ha _ => .inl fun known => ?_⟩
        cases ha
        rw [lastRegister_probe, registerLink, if_neg hwss]

/-- A choice covers the relay it makes active. -/
theorem activateChoice_queues {before : MobileRelay}
    (hnone : s.active = none) (hcontrol : s.control = before.control)
    (hroom : before.control.length + 4 ≤ MAX_QUEUED_CONTROL) (now : Nat) :
    Queues 4 before (s.activateChoice now) := by
  unfold activateChoice
  split
  · exact queueRegistration_queues hcontrol hroom
  · refine ⟨[], by rw [hcontrol, List.append_nil], Nat.zero_le 4, noSends_nil,
      fun active hactive => ?_⟩
    rw [hnone] at hactive
    exact nomatch hactive

/-- The `configure` takes away the WebSocket that the session registers over last. -/
def Withdraws (s : MobileRelay) (relays : List RelayOption) : Prop :=
  ∃ active ∈ s.active, registerLink active = .wss ∧
    ∃ relay ∈ listed relays active.endpoint, wssOf s.allowWss relay = none

theorem registerLink_setWssAvailable (active : Active) (wss : Option String)
    (h : wss = none → registerLink active = .udp) :
    registerLink { active with
      wss := wss
      ladder := active.ladder.setWssAvailable wss.isSome } = registerLink active := by
  cases wss with
  | some url => rfl
  | none =>
    rw [h rfl]
    exact if_neg fun hwss => nomatch hwss.1

theorem configure_queues (token : Token) (expiresAtUnix : Nat) (relays : List RelayOption)
    (now : Nat) (hroom : s.control.length + 4 ≤ MAX_QUEUED_CONTROL)
    (hwithdraws : s.Withdraws relays → token ≠ s.token ∨ expiresAtUnix ≠ s.expiresAtUnix) :
    Queues 4 s (s.configure token expiresAtUnix relays now) := by
  unfold configure
  dsimp only
  split
  · next active relay hactive hlisted =>
    rw [hactive] at hlisted
    split_ifs with hchanged
    · exact queueRegistration_queues rfl hroom
    · refine Queues.mono (m := 0) (.of_same rfl ?_) (Nat.zero_le 4)
      intro active' hactive' hlive
      cases hactive'
      have hexpires : expiresAtUnix = s.expiresAtUnix :=
        not_not.mp fun hne => hchanged (.inr hne)
      refine ⟨hexpires ▸ hlive, active, hactive, rfl, ?_⟩
      refine (registerLink_setWssAvailable active _ fun hnone => ?_).symm
      by_contra hlink
      have hwss : registerLink active = .wss := by
        cases h : registerLink active with
        | udp => exact absurd h hlink
        | wss => rfl
      exact hchanged (hwithdraws ⟨active, hactive, hwss, relay, hlisted, hnone⟩)
  · refine activateChoice_queues ?_ ?_ hroom now
    · rfl
    · rfl

theorem observed_queues (link : Link) (endpoint : String) (now : Nat)
    (hroom : s.control.length + 4 ≤ MAX_QUEUED_CONTROL) :
    Queues 4 s (s.observed link endpoint now) := by
  unfold observed
  split
  · exact queueRegistration_queues rfl hroom
  · refine Queues.mono ?_ (Nat.zero_le 4)
    unfold observedActive
    split
    · exact .of_eq rfl rfl rfl
    · next active hactive =>
      dsimp only
      split
      · -- an answer is noted; the link and the streak of answered rounds stay
        refine .of_same rfl fun active' hactive' hlive => ⟨hlive, active, hactive, ?_⟩
        cases hactive'
        refine ⟨rfl, ?_⟩
        cases link with
        | udp | wss => rfl
      · exact .of_eq rfl rfl rfl

theorem inbound_queues (data : List UInt8) (link : Link) (endpoint : String) (now : Nat)
    (hroom : s.control.length + 4 ≤ MAX_QUEUED_CONTROL) :
    Queues 4 s (s.inbound data link endpoint now).1 := by
  unfold inbound
  split
  · exact observed_queues link endpoint now hroom
  · exact Queues.mono (.of_eq rfl rfl rfl) (Nat.zero_le 4)

theorem endRound_queues (now : Nat) (hroom : s.control.length + 4 ≤ MAX_QUEUED_CONTROL) :
    Queues 4 s (s.endRound active now) := by
  unfold endRound
  split
  · exact queueRegistration_queues rfl hroom
  · exact Queues.mono (.of_eq rfl rfl rfl) (Nat.zero_le 4)

/-- A fail-back probe goes to another relay than the active one. -/
theorem tickFailback_queues (now : Nat)
    (hendpoint : ∀ a, s.active = some a → a.endpoint = active.endpoint)
    (hroom : s.control.length + 2 ≤ MAX_QUEUED_CONTROL) :
    Queues 2 s (s.tickFailback active now) := by
  unfold tickFailback
  split
  · split_ifs
    · exact Queues.mono (.of_eq rfl rfl rfl) (Nat.zero_le 2)
    · exact Queues.mono (.of_eq rfl rfl rfl) (Nat.zero_le 2)
  · split
    · next target htarget =>
      have hne : target ≠ active.endpoint := by
        have hmem := List.mem_takeWhile_imp (Selector.mem_of_failbackTarget htarget)
        simpa using hmem
      let probing : MobileRelay := { s with failback := some ⟨target, now + FAILBACK_PROBE⟩ }
      obtain ⟨control, heq⟩ := pushProbe_eq probing .udp target
      have hcontrol : (probing.pushProbe .udp target).control =
          s.control ++ if s.expiresAtUnix = 0 then [] else probing.probe .udp target :=
        pushProbe_control (s := probing) hroom .udp target
      refine ⟨_, hcontrol, ?_, ?_, fun a ha hlive => .inr ?_⟩
      · split_ifs
        · exact Nat.zero_le 2
        · exact Nat.le_refl 2
      · split_ifs
        · exact noSends_nil
        · exact probing.noSends_probe .udp target
      · rw [heq] at ha hlive
        rw [if_neg hlive, hendpoint a ha]
        exact ⟨toward_probe_ne probing .udp hne, hlive, a, ha, hendpoint a ha, rfl⟩
    · exact Queues.mono (.of_eq rfl rfl rfl) (Nat.zero_le 2)

theorem tickActive_queues (hactive : s.active = some active) (now : Nat)
    (hroom : s.control.length + 6 ≤ MAX_QUEUED_CONTROL) : Queues 6 s (s.tickActive active now) := by
  unfold tickActive
  split
  · have hround : Queues 4 s (s.endRound active now) := endRound_queues now (by omega)
    have hlength := hround.length_le
    obtain ⟨ladder, roundEnds, control, heq⟩ := s.endRound_eq hactive now
    refine hround.trans (tickFailback_queues now ?_ (by omega))
    intro a ha
    rw [heq] at ha
    cases ha
    rfl
  · refine Queues.mono (m := 4) (activateChoice_queues ?_ ?_ (by omega) now) (by decide)
    · rfl
    · rfl

theorem tick_queues (now : Nat) (hroom : s.control.length + 10 ≤ MAX_QUEUED_CONTROL) :
    Queues 10 s (s.tick now) := by
  unfold tick
  split
  · exact ⟨[], (List.append_nil _).symm, Nat.zero_le 10, noSends_nil, nofun⟩
  · have hstarted : Queues 4 s (if s.active.isNone then s.activateChoice now else s) := by
      split
      · next hnone =>
        exact activateChoice_queues (Option.isNone_iff_eq_none.mp hnone) rfl (by omega) now
      · exact Queues.mono (.of_eq rfl rfl rfl) (Nat.zero_le 4)
    dsimp only
    generalize (if s.active.isNone then s.activateChoice now else s) = started at hstarted
    have hlength := hstarted.length_le
    cases hactive : started.active with
    | none => exact hstarted.mono (by decide)
    | some active => exact hstarted.trans (tickActive_queues hactive now (by omega))

/-- The most frames one call queues. -/
def MAX_CALL_QUEUES : Nat := 10

/-- Every call but `poll` only adds to the queue, and what it adds covers the relay it leaves
active. -/
theorem call_queues (call : MobileCall) (hpoll : call ≠ .poll)
    (hroom : s.control.length + MAX_CALL_QUEUES ≤ MAX_QUEUED_CONTROL)
    (hwithdraws : ∀ token expiresAtUnix relays now,
      call = .configure token expiresAtUnix relays now → s.Withdraws relays →
        token ≠ s.token ∨ expiresAtUnix ≠ s.expiresAtUnix) :
    Queues MAX_CALL_QUEUES s (s.step call) := by
  have hfour : s.control.length + 4 ≤ MAX_QUEUED_CONTROL :=
    le_trans (by simp [MAX_CALL_QUEUES]) hroom
  cases call with
  | configure token expiresAtUnix relays now =>
    exact (configure_queues token expiresAtUnix relays now hfour
      (hwithdraws token expiresAtUnix relays now rfl)).mono (by decide)
  | setPeer publicKey id hasDirect =>
    change Queues MAX_CALL_QUEUES s (s.setPeer publicKey id hasDirect)
    refine Queues.mono (m := 0) ?_ (Nat.zero_le _)
    unfold setPeer
    split
    · exact .of_eq rfl rfl rfl
    · split_ifs
      · exact .of_eq rfl rfl rfl
      · exact .of_eq rfl rfl rfl
  | beginPeerRefresh | endPeerRefresh => exact Queues.mono (.of_eq rfl rfl rfl) (Nat.zero_le _)
  | outbound peer now =>
    change Queues MAX_CALL_QUEUES s (s.outbound peer now).1
    refine Queues.mono (m := 0) ?_ (Nat.zero_le _)
    unfold outbound
    split
    · exact .of_eq rfl rfl rfl
    · exact .of_eq rfl rfl rfl
  | directReceived peer =>
    change Queues MAX_CALL_QUEUES s (s.directReceived peer)
    refine Queues.mono (m := 0) ?_ (Nat.zero_le _)
    unfold directReceived
    split
    · exact .of_eq rfl rfl rfl
    · exact .of_eq rfl rfl rfl
  | inbound data link endpoint now =>
    exact (inbound_queues data link endpoint now hfour).mono (by decide)
  | tick now => exact tick_queues now hroom
  | poll => exact absurd rfl hpoll

end MobileRelay

end BlakTail.Relay
