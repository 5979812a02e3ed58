import BlakTail.Relay.Ladder

/-!
# Direct or Relayed

Whether a peer is reached directly or through the relay.  Demotion to the relay needs sustained
silence, promotion needs repeated proof, and the direct path is retried in windows.
-/

namespace BlakTail.Relay

open Foundation

def DIRECT_SILENCE : Nat := secs 15
def DIRECT_RETRY_EVERY : Nat := secs 30
def DIRECT_PROBE_WINDOW : Nat := secs 10
def DIRECT_PROMOTE_HITS : Nat := 2

inductive PathMode where
  | direct
  | relay
  deriving DecidableEq, Repr

/-- Where one outbound datagram goes. -/
structure Route where
  direct : Bool
  relay : Bool
  deriving DecidableEq, Repr

/-- The path of one peer with its timers. -/
structure PeerPath where
  mode : PathMode
  hasDirect : Bool
  unansweredSince : Option Nat
  probeUntil : Option Nat
  nextProbe : Option Nat
  hits : Nat
  deriving DecidableEq, Repr

namespace PeerPath

def new (hasDirect : Bool) : PeerPath :=
  { mode := if hasDirect then .direct else .relay
    hasDirect := hasDirect
    unansweredSince := none
    probeUntil := none
    nextProbe := none
    hits := 0 }

variable (path : PeerPath)

def setHasDirect (hasDirect : Bool) : PeerPath :=
  { path with
    hasDirect := hasDirect
    mode := if hasDirect then path.mode else .relay }

/-- The first unanswered datagram of the silence so far. -/
def silentSince (now : Nat) : Nat := path.unansweredSince.getD now

/-- The direct path has been silent for too long. -/
def demote (now : Nat) : PeerPath :=
  { path with
    unansweredSince := some (path.silentSince now)
    mode := .relay
    hits := 0
    probeUntil := none
    nextProbe := some (now + DIRECT_RETRY_EVERY) }

def openWindow (now : Nat) : PeerPath :=
  { path with
    probeUntil := some (now + DIRECT_PROBE_WINDOW)
    nextProbe := some (now + DIRECT_RETRY_EVERY)
    hits := 0 }

def inWindow (now : Nat) : Bool := path.probeUntil.any (now < ·)

def probeDue (now : Nat) : Bool := path.nextProbe.all (· ≤ now)

def route (now : Nat) (relayReady : Bool) : PeerPath × Route :=
  if relayReady then
    match path.mode with
    | .direct =>
      if now - path.silentSince now < DIRECT_SILENCE then
        ({ path with unansweredSince := some (path.silentSince now) }, ⟨true, false⟩)
      else (path.demote now, ⟨false, true⟩)
    | .relay =>
      if path.hasDirect then
        if path.inWindow now then (path, ⟨true, true⟩)
        else if path.probeDue now then (path.openWindow now, ⟨true, true⟩)
        else (path, ⟨false, true⟩)
      else (path, ⟨false, true⟩)
  else (path, ⟨path.hasDirect, false⟩)

/-- One more datagram came directly while relayed. -/
def proven : PeerPath :=
  if DIRECT_PROMOTE_HITS ≤ saturatingSucc path.hits then
    { path with mode := .direct, hits := 0, probeUntil := none }
  else { path with hits := saturatingSucc path.hits }

def directReceived : PeerPath :=
  let answered := { path with unansweredSince := none }
  if path.mode = .relay ∧ path.hasDirect then answered.proven else answered

end PeerPath

open PeerPath

/-! ## Runs -/

inductive PathCall where
  | setHasDirect (hasDirect : Bool)
  | route (relayReady : Bool)
  | directReceived
  deriving DecidableEq, Repr

variable (path : PeerPath)

def PeerPath.step (call : Nat × PathCall) : PeerPath :=
  match call.2 with
  | .setHasDirect hasDirect => path.setHasDirect hasDirect
  | .route relayReady => (path.route call.1 relayReady).1
  | .directReceived => path.directReceived

/-- The call demotes the path because of silence. -/
def PeerPath.Demotes (call : Nat × PathCall) : Prop :=
  call.2 = .route true ∧ path.mode = .direct ∧ (path.step call).mode = .relay

def PeerPath.Opens (call : Nat × PathCall) : Prop :=
  call.2 = .route true ∧ path.mode = .relay ∧ path.hasDirect ∧
    path.inWindow call.1 = false ∧ path.probeDue call.1

/-! ## What a call does -/

/-- The ways a call can go, with what it leaves. -/
inductive PeerPath.Does (path : PeerPath) (time : Nat) : PathCall → PeerPath → Prop where
  | setDirect (hasDirect : Bool) : Does path time (.setHasDirect hasDirect)
      (path.setHasDirect hasDirect)
  | unready : Does path time (.route false) path
  | stays (hmode : path.mode = .direct) (hearly : time - path.silentSince time < DIRECT_SILENCE) :
      Does path time (.route true) { path with unansweredSince := some (path.silentSince time) }
  | demotes (hmode : path.mode = .direct)
      (hsilent : DIRECT_SILENCE ≤ time - path.silentSince time) :
      Does path time (.route true) (path.demote time)
  | relays (hmode : path.mode = .relay) (hnot : ¬path.Opens (time, .route true)) :
      Does path time (.route true) path
  | opens (h : path.Opens (time, .route true)) : Does path time (.route true) (path.openWindow time)
  | answered (hnot : path.mode = .direct ∨ path.hasDirect = false) : Does path time .directReceived
      { path with unansweredSince := none }
  | counted (hmode : path.mode = .relay) (hdirect : path.hasDirect)
      (hfew : saturatingSucc path.hits < DIRECT_PROMOTE_HITS) : Does path time .directReceived
      { path with unansweredSince := none, hits := saturatingSucc path.hits }
  | promoted (hmode : path.mode = .relay) (hdirect : path.hasDirect)
      (hproof : DIRECT_PROMOTE_HITS ≤ saturatingSucc path.hits) : Does path time .directReceived
      { path with unansweredSince := none, mode := .direct, hits := 0, probeUntil := none }

theorem PeerPath.step_does (time : Nat) (call : PathCall) :
    path.Does time call (path.step (time, call)) := by
  cases call with
  | setHasDirect hasDirect => exact .setDirect hasDirect
  | route relayReady =>
    cases relayReady with
    | false => exact .unready
    | true =>
      change path.Does time (.route true) (path.route time true).1
      unfold route
      cases hmode : path.mode with
      | direct =>
        dsimp only
        rw [if_pos rfl]
        split_ifs with hearly
        · rw [← hmode]
          exact .stays hmode hearly
        · exact .demotes hmode (Nat.le_of_not_lt hearly)
      | relay =>
        dsimp only
        rw [if_pos rfl]
        split_ifs with hdirect hwindow hdue
        · exact .relays hmode fun hopens => absurd hwindow (by simp [hopens.2.2.2.1])
        · exact .opens ⟨rfl, hmode, hdirect, Bool.not_eq_true _ ▸ hwindow, hdue⟩
        · exact .relays hmode fun hopens => hdue hopens.2.2.2.2
        · exact .relays hmode fun hopens => hdirect hopens.2.2.1
  | directReceived =>
    change path.Does time .directReceived path.directReceived
    unfold directReceived proven
    dsimp only
    split_ifs with hrelay hproof
    · exact .promoted hrelay.1 hrelay.2 hproof
    · exact .counted hrelay.1 hrelay.2 (Nat.lt_of_not_le hproof)
    · refine .answered ?_
      cases hmode : path.mode with
      | direct => exact .inl rfl
      | relay =>
        refine .inr ?_
        cases hdirect : path.hasDirect with
        | false => rfl
        | true => exact absurd ⟨hmode, hdirect⟩ hrelay

/-- A path in direct mode has a direct endpoint. -/
def PeerPath.Direct : Prop := path.mode = .direct → path.hasDirect

theorem PeerPath.new_direct (hasDirect : Bool) : (new hasDirect).Direct := by
  cases hasDirect with
  | true => exact fun _ => rfl
  | false => exact nofun

variable {path : PeerPath}

theorem PeerPath.Does.direct {path' : PeerPath} {time : Nat} {call : PathCall}
    (hdoes : path.Does time call path') (h : path.Direct) : path'.Direct := by
  cases hdoes with
  | setDirect hasDirect =>
    cases hasDirect with
    | true => exact fun _ => rfl
    | false => exact nofun
  | unready | stays hmode hearly => exact h
  | demotes hmode hsilent => exact nofun
  | relays hmode hnot | opens hopens | answered hnot | counted hmode hdirect hfew => exact h
  | promoted hmode hdirect hproof => exact fun _ => hdirect

theorem PeerPath.step_direct (h : path.Direct) (call : Nat × PathCall) : (path.step call).Direct :=
  (path.step_does call.1 call.2).direct h

/-- A datagram always has a path when there is one: directly if the peer has an endpoint, through
the relay if that is ready; and it is sent nowhere else. -/
theorem PeerPath.route_paths (h : path.Direct) (now : Nat) (relayReady : Bool) :
    ((path.hasDirect ∨ relayReady) →
      (path.route now relayReady).2.direct ∨ (path.route now relayReady).2.relay) ∧
    ((path.route now relayReady).2.direct → path.hasDirect) ∧
    ((path.route now relayReady).2.relay → relayReady) := by
  unfold route
  cases relayReady with
  | false => simp
  | true =>
    rw [if_pos rfl]
    cases hmode : path.mode with
    | direct =>
      have hdirect := h hmode
      dsimp only
      split_ifs
      · simp [hdirect]
      · simp
    | relay =>
      dsimp only
      split_ifs with hdirect hwindow hdue
      · simp [hdirect]
      · simp [hdirect]
      · simp
      · simp

/-! ## Demotions and windows -/

/-- A call that starts the count of direct datagrams anew. -/
def PeerPath.Restarts (path : PeerPath) (call : Nat × PathCall) : Prop :=
  path.Demotes call ∨ path.Opens call

variable {call : Nat × PathCall}

theorem PeerPath.Demotes.step_eq (h : path.Demotes call) : path.step call = path.demote call.1 ∧
      DIRECT_SILENCE ≤ call.1 - path.silentSince call.1 := by
  obtain ⟨hcall, hmode, hrelay⟩ := h
  have hdoes := path.step_does call.1 call.2
  rw [Prod.mk.eta] at hdoes
  rw [hcall] at hdoes
  generalize path.step call = path' at hdoes hrelay
  cases hdoes with
  | stays _ hearly => exact absurd (hmode.symm.trans hrelay) (by decide)
  | demotes _ hsilent => exact ⟨rfl, hsilent⟩
  | relays hwas _ => exact absurd (hmode.symm.trans hwas) (by decide)
  | opens hopens => exact absurd (hmode.symm.trans hopens.2.1) (by decide)

theorem PeerPath.Opens.step_eq (h : path.Opens call) : path.step call = path.openWindow call.1 := by
  obtain ⟨time, made⟩ := call
  obtain rfl : made = .route true := h.1
  have hmode : path.mode = .relay := h.2.1
  have hdoes := path.step_does time (.route true)
  generalize path.step (time, .route true) = path' at hdoes ⊢
  cases hdoes with
  | stays hdirect _ | demotes hdirect _ => exact absurd (hdirect.symm.trans hmode) (by decide)
  | relays _ hnot => exact absurd h hnot
  | opens _ => rfl

theorem PeerPath.Restarts.step_eq (h : path.Restarts call) : (path.step call).hits = 0 ∧
      (path.step call).nextProbe = some (call.1 + DIRECT_RETRY_EVERY) := by
  rcases h with hdemotes | hopens
  · rw [hdemotes.step_eq.1]
    exact ⟨rfl, rfl⟩
  · rw [hopens.step_eq]
    exact ⟨rfl, rfl⟩

/-- How many datagrams came directly. -/
def received (calls : List (Nat × PathCall)) : Nat :=
  calls.countP fun call => call.2 = .directReceived

variable (path)

variable (call)

theorem PeerPath.step_hits : (path.step call).hits ≤ path.hits + received [call] := by
  obtain ⟨time, made⟩ := call
  have hdoes := path.step_does time made
  generalize path.step (time, made) = path' at hdoes ⊢
  cases hdoes with
  | counted _ _ _ => exact saturatingSucc_le path.hits
  | promoted _ _ _ | demotes _ _ | opens _ => exact Nat.zero_le _
  | setDirect _ | unready | stays _ _ | relays _ _ | answered _ => exact Nat.le_add_right _ _

/-- The next window is put off by a demotion and by a window, and by nothing else. -/
theorem PeerPath.step_nextProbe :
    (path.step call).nextProbe = path.nextProbe ∨
      (path.step call).nextProbe = some (call.1 + DIRECT_RETRY_EVERY) := by
  obtain ⟨time, made⟩ := call
  have hdoes := path.step_does time made
  generalize path.step (time, made) = path' at hdoes ⊢
  cases hdoes with
  | demotes _ _ | opens _ => exact .inr rfl
  | setDirect _ | unready | stays _ _ | relays _ _ | answered _ | counted _ _ _ | promoted _ _ _ =>
    exact .inl rfl

/-- The end of a window is set when one opens. -/
theorem PeerPath.step_probeUntil {until' : Nat} (h : (path.step call).probeUntil = some until') :
    path.probeUntil = some until' ∨ path.Opens call ∧ until' = call.1 + DIRECT_PROBE_WINDOW := by
  obtain ⟨time, made⟩ := call
  have hdoes := path.step_does time made
  generalize path.step (time, made) = path' at hdoes h
  cases hdoes with
  | demotes _ _ => cases h
  | opens hopens => exact .inr ⟨hopens, (Option.some.inj h).symm⟩
  | promoted _ _ _ => cases h
  | setDirect _ | unready | stays _ _ | relays _ _ | answered _ | counted _ _ _ => exact .inl h

/-- In direct mode, silence began with an earlier datagram or with this one. -/
theorem PeerPath.step_unanswered (hmode : (path.step call).mode = .direct) {since : Nat}
    (h : (path.step call).unansweredSince = some since) :
    path.mode = .direct ∧ (path.unansweredSince = some since ∧ call.2 ≠ .directReceived ∨
      call.2 = .route true ∧ since = call.1) := by
  obtain ⟨time, made⟩ := call
  have hdoes := path.step_does time made
  generalize path.step (time, made) = path' at hdoes h hmode
  cases hdoes with
  | setDirect hasDirect =>
    cases hasDirect with
    | true => exact ⟨hmode, .inl ⟨h, by simp⟩⟩
    | false => cases hmode
  | unready => exact ⟨hmode, .inl ⟨h, by simp⟩⟩
  | stays hdirect _ =>
    refine ⟨hdirect, ?_⟩
    have hsince : path.silentSince time = since := Option.some.inj h
    unfold silentSince at hsince
    cases hbefore : path.unansweredSince with
    | none =>
      rw [hbefore] at hsince
      exact .inr ⟨rfl, hsince.symm⟩
    | some first =>
      rw [hbefore] at hsince
      exact .inl ⟨by rw [← hsince]; rfl, by simp⟩
  | demotes _ _ => cases hmode
  | relays hrelay _ => exact absurd (hrelay.symm.trans hmode) (by decide)
  | opens hopens => exact absurd (hopens.2.1.symm.trans hmode) (by decide)
  | answered _ | counted _ _ _ | promoted _ _ _ => cases h

variable {call}

variable {path}

/-! ## The past of a path -/

def Timed (calls : List (Nat × PathCall)) : Prop := calls.Pairwise fun a b => a.1 ≤ b.1

theorem Timed.of_append {before after : List (Nat × PathCall)} (h : Timed (before ++ after)) :
    Timed before := (List.pairwise_append.mp h).1

theorem Timed.le_last {before : List (Nat × PathCall)} {last : Nat × PathCall}
    (h : Timed (before ++ [last])) : ∀ call ∈ before, call.1 ≤ last.1 :=
  fun call hcall => (List.pairwise_append.mp h).2.2 call hcall last List.mem_cons_self

/-- A datagram was sent directly at a time while the relay was ready, and none has come back
directly since. -/
def SilentSince (start : PeerPath) (since : Nat) (past : List (Nat × PathCall)) : Prop :=
  Since PeerPath.step (fun path call => call.2 = .route true ∧ path.mode = .direct ∧ call.1 = since)
    (fun _ call => call.2 ≠ .directReceived) start past

/-- What the timers and the counter of a path say about its past. -/
structure Remembers (start : PeerPath) (past : List (Nat × PathCall)) (path : PeerPath) : Prop where
  silence : path.mode = .direct → ∀ since, path.unansweredSince = some since →
    SilentSince start since past
  proof : ∀ before call after, past = before ++ call :: after →
    (run PeerPath.step start before).Restarts call → path.hits ≤ received after
  retry : ∀ before call after, past = before ++ call :: after →
    (run PeerPath.step start before).Restarts call →
    ∃ next, path.nextProbe = some next ∧ call.1 + DIRECT_RETRY_EVERY ≤ next
  window : ∀ until', path.probeUntil = some until' → ∃ before call after,
    past = before ++ call :: after ∧ (run PeerPath.step start before).Opens call ∧
    until' = call.1 + DIRECT_PROBE_WINDOW

theorem Remembers.new (hasDirect : Bool) : Remembers (.new hasDirect) [] (.new hasDirect) where
  silence := nofun
  proof := fun before call after h => by cases before <;> cases h
  retry := fun before call after h => by cases before <;> cases h
  window := nofun

/-- One more call: what the path remembers stays right for the longer past. -/
theorem Remembers.step {start : PeerPath} {past : List (Nat × PathCall)}
    (htimed : Timed (past ++ [call])) (h : Remembers start past (run PeerPath.step start past)) :
    Remembers start (past ++ [call]) ((run PeerPath.step start past).step call) := by
  refine ⟨fun hmode since hsince => ?_, fun before first after hsplit hrestarts => ?_,
    fun before first after hsplit hrestarts => ?_, fun until' huntil => ?_⟩
  · obtain ⟨hwas, hcase⟩ := step_unanswered _ call hmode hsince
    refine since_snoc_iff.mpr ?_
    rcases hcase with ⟨hearlier, hcall⟩ | ⟨hcall, rfl⟩
    · exact .inr ⟨h.silence hwas since hearlier, hcall⟩
    · exact .inl ⟨hcall, hwas, rfl⟩
  · rcases snoc_eq_split_iff.mp hsplit with ⟨rfl, rfl, rfl⟩ | ⟨rest, rfl, rfl⟩
    · rw [hrestarts.step_eq.1]
      exact Nat.zero_le _
    · have hcount : received (rest ++ [call]) = received rest + received [call] :=
        List.countP_append
      rw [hcount]
      exact (step_hits _ call).trans
        (Nat.add_le_add_right (h.proof before first rest rfl hrestarts) _)
  · rcases snoc_eq_split_iff.mp hsplit with ⟨rfl, rfl, rfl⟩ | ⟨rest, rfl, rfl⟩
    · exact ⟨_, hrestarts.step_eq.2, le_rfl⟩
    · rcases step_nextProbe (run PeerPath.step start (before ++ first :: rest)) call with
        hsame | hlater
      · rw [hsame]
        exact h.retry before first rest rfl hrestarts
      · -- put off from a time that is not earlier
        have hle : first.1 ≤ call.1 := htimed.le_last first (by simp)
        exact ⟨_, hlater, Nat.add_le_add_right hle _⟩
  · rcases step_probeUntil _ call huntil with hsame | ⟨hopens, rfl⟩
    · obtain ⟨before, first, rest, rfl, hopens, hlength⟩ := h.window until' hsame
      exact ⟨before, first, rest ++ [call], by simp, hopens, hlength⟩
    · exact ⟨past, call, [], rfl, hopens, rfl⟩

theorem run_remembers (hasDirect : Bool) {calls : List (Nat × PathCall)} (htimed : Timed calls) :
    Remembers (.new hasDirect) calls (run PeerPath.step (.new hasDirect) calls) := by
  have hrun : Timed calls →
      Remembers (.new hasDirect) calls (run PeerPath.step (.new hasDirect) calls) :=
    run_history (P := fun past path => Timed past → Remembers (.new hasDirect) past path)
      (fun _ => Remembers.new hasDirect)
      (fun past call h htimed => (h htimed.of_append).step htimed) calls
  exact hrun htimed

/-! ## Demotion, promotion and windows -/

section Moments

variable {start path : PeerPath} {past : List (Nat × PathCall)} {call : Nat × PathCall}

theorem Remembers.demotion (h : Remembers start past path) (hroute : ∃ ready, call.2 = .route ready)
    (hdirect : path.mode = .direct) (hrelay : (path.step call).mode = .relay) :
    call.2 = .route true ∧ ∃ since, since + DIRECT_SILENCE ≤ call.1 ∧
      SilentSince start since past := by
  obtain ⟨ready, hready⟩ := hroute
  have hcall : call.2 = .route true := by
    cases ready with
    | true => exact hready
    | false =>
      have hsame : path.step call = path := by
        unfold PeerPath.step
        rw [hready]
        rfl
      rw [hsame] at hrelay
      exact absurd (hdirect.symm.trans hrelay) (by decide)
  refine ⟨hcall, ?_⟩
  have hsilent := (Demotes.step_eq ⟨hcall, hdirect, hrelay⟩).2
  unfold silentSince at hsilent
  cases hsince : path.unansweredSince with
  | none =>
    rw [hsince, Option.getD_none, Nat.sub_self] at hsilent
    exact absurd hsilent (by decide)
  | some since =>
    rw [hsince, Option.getD_some] at hsilent
    refine ⟨since, ?_, h.silence hdirect since hsince⟩
    have hpositive : 0 < DIRECT_SILENCE := by decide
    omega

section

variable (h : Remembers start past path)
include h

theorem Remembers.promotion {after : List (Nat × PathCall)} {first : Nat × PathCall}
    {before : List (Nat × PathCall)}
    (hcall : call.2 = .directReceived) (hrelay : path.mode = .relay)
    (hdirect : (path.step call).mode = .direct) (hsplit : past = before ++ first :: after)
    (hrestarts : (run PeerPath.step start before).Restarts first) :
    DIRECT_PROMOTE_HITS ≤ received after + 1 := by
  have hproof : DIRECT_PROMOTE_HITS ≤ saturatingSucc path.hits := by
    obtain ⟨time, made⟩ := call
    obtain rfl : made = .directReceived := hcall
    have hdoes := path.step_does time .directReceived
    generalize path.step (time, .directReceived) = path' at hdoes hdirect
    cases hdoes with
    | answered _ | counted _ _ _ => exact absurd (hrelay.symm.trans hdirect) (by decide)
    | promoted _ _ hproof => exact hproof
  calc DIRECT_PROMOTE_HITS ≤ saturatingSucc path.hits := hproof
    _ ≤ path.hits + 1 := saturatingSucc_le path.hits
    _ ≤ received after + 1 := Nat.add_le_add_right (h.proof before first after hsplit hrestarts) 1

theorem Remembers.probing (htimed : Timed (past ++ [call]))
    (hpath : run PeerPath.step start past = path) (hcall : call.2 = .route true)
    (hrelay : path.mode = .relay) (hdirect : (path.route call.1 true).2.direct) :
    ∃ before first after, past ++ [call] = before ++ first :: after ∧
      (run PeerPath.step start before).Opens first ∧ first.1 ≤ call.1 ∧
      call.1 < first.1 + DIRECT_PROBE_WINDOW := by
  have hpositive : 0 < DIRECT_PROBE_WINDOW := by decide
  cases hwindow : path.inWindow call.1 with
  | true =>
    obtain ⟨until', huntil, hbefore⟩ := (Option.any_eq_true _ _).mp hwindow
    obtain ⟨before, first, after, rfl, hopens, rfl⟩ := h.window until' huntil
    refine ⟨before, first, after ++ [call], by simp, hopens, htimed.le_last first (by simp), ?_⟩
    exact of_decide_eq_true hbefore
  | false =>
    refine ⟨past, call, [], rfl, ?_, le_rfl, Nat.lt_add_of_pos_right hpositive⟩
    rw [hpath]
    unfold route at hdirect
    rw [if_pos rfl, hrelay] at hdirect
    dsimp only at hdirect
    rw [hwindow, if_neg Bool.false_ne_true] at hdirect
    split_ifs at hdirect with hhas hdue
    · exact ⟨hcall, hrelay, hhas, hwindow, hdue⟩

theorem Remembers.apart {after : List (Nat × PathCall)} {first : Nat × PathCall}
    {before : List (Nat × PathCall)}
    (hopens : path.Opens call) (hsplit : past = before ++ first :: after)
    (hrestarts : (run PeerPath.step start before).Restarts first) :
    first.1 + DIRECT_RETRY_EVERY ≤ call.1 := by
  obtain ⟨next, hnext, hle⟩ := h.retry before first after hsplit hrestarts
  have hdue := hopens.2.2.2.2
  unfold probeDue at hdue
  rw [hnext] at hdue
  exact hle.trans (of_decide_eq_true hdue)

end

end Moments

/-- Every moment of every run with times that do not decrease.
A call of `route` demotes the path only if the relay is ready and a datagram was sent directly at
least `DIRECT_SILENCE` before, with none received directly since.
A datagram received directly promotes the path only as at least the `DIRECT_PROMOTE_HITS`-th since
every demotion and every opening of a probe window.
While relayed, datagrams are duplicated to the direct path only inside a probe window, and a window
opens at least `DIRECT_RETRY_EVERY` after every earlier one and after every demotion. -/
theorem path_history (hasDirect : Bool) (calls : List (Nat × PathCall)) (htimed : Timed calls) :
    let start := new hasDirect
    ∀ past call later, calls = past ++ call :: later →
      let path := run PeerPath.step start past
      ((∃ ready, call.2 = .route ready) → path.mode = .direct → (path.step call).mode = .relay →
        call.2 = .route true ∧ ∃ since, since + DIRECT_SILENCE ≤ call.1 ∧
          SilentSince start since past) ∧
      (call.2 = .directReceived → path.mode = .relay → (path.step call).mode = .direct →
        ∀ before first after, past = before ++ first :: after →
          (run PeerPath.step start before).Restarts first →
          DIRECT_PROMOTE_HITS ≤ received after + 1) ∧
      (call.2 = .route true → path.mode = .relay → (path.route call.1 true).2.direct →
        ∃ before first after, past ++ [call] = before ++ first :: after ∧
          (run PeerPath.step start before).Opens first ∧ first.1 ≤ call.1 ∧
          call.1 < first.1 + DIRECT_PROBE_WINDOW) ∧
      (path.Opens call → ∀ before first after, past = before ++ first :: after →
        (run PeerPath.step start before).Restarts first →
        first.1 + DIRECT_RETRY_EVERY ≤ call.1) := by
  intro start past call later hcalls path
  have hsplit : calls = (past ++ [call]) ++ later := by
    rw [hcalls, List.append_assoc, List.singleton_append]
  rw [hsplit] at htimed
  have hnow : Timed (past ++ [call]) := htimed.of_append
  have hpast : Remembers start past path := run_remembers hasDirect hnow.of_append
  refine ⟨hpast.demotion, ?_, hpast.probing hnow rfl, ?_⟩
  · intro hcall hrelay hdirect before first after
    exact hpast.promotion hcall hrelay hdirect
  · intro hopens before first after
    exact hpast.apart hopens

/-- Silence, a window and two datagrams from the peer. -/
theorem path_history_silence :
    let calls := [(0, PathCall.route true), (secs 15, .route true), (secs 45, .route true),
      (secs 46, .directReceived), (secs 47, .directReceived)]
    (run PeerPath.step (.new true) (calls.take 1)).Demotes (secs 15, .route true) ∧
      (run PeerPath.step (.new true) (calls.take 2)).Opens (secs 45, .route true) ∧
      secs 15 + DIRECT_RETRY_EVERY ≤ secs 45 := by
  have htimed : Timed [(0, PathCall.route true), (secs 15, .route true), (secs 45, .route true),
      (secs 46, .directReceived), (secs 47, .directReceived)] := by
    unfold Timed
    decide
  have hdemotes : (run PeerPath.step (.new true) [(0, .route true)]).Demotes
      (secs 15, .route true) := ⟨rfl, by decide, by decide⟩
  have hopens : (run PeerPath.step (.new true) [(0, .route true), (secs 15, .route true)]).Opens
      (secs 45, .route true) := ⟨rfl, by decide, by decide, by decide, by decide⟩
  refine ⟨hdemotes, hopens, ?_⟩
  exact (path_history true _ htimed [(0, .route true), (secs 15, .route true)]
    (secs 45, .route true) _ rfl).2.2.2 hopens [(0, .route true)] (secs 15, .route true) [] rfl
    (.inl hdemotes)

end BlakTail.Relay
