import BlakTail.Foundation.History

/-!
# The Relay Link

Which link carries a client's relay frames.  UDP is preferred; the WebSocket is used only after
silent UDP rounds in a row, and UDP must then answer rounds in a row to be trusted again.
-/

namespace BlakTail.Relay

open Foundation

/-- Instants and durations are counted in nanoseconds. -/
def secs (n : Nat) : Nat := n * 1000000000

def WSS_AFTER_UDP_MISSES : Nat := 3
def UDP_AFTER_HITS : Nat := 3
def FAST_ROUND : Nat := secs 5
def STEADY_ROUND : Nat := secs 25
def RELAY_HEALTH : Nat := secs 50

inductive Link where
  | udp
  | wss
  deriving DecidableEq, Repr

/-- `saturating_add(1)` on a `u32`. -/
def saturatingSucc (n : Nat) : Nat := min (n + 1) (2 ^ 32 - 1)

theorem saturatingSucc_le (n : Nat) : saturatingSucc n ≤ n + 1 := min_le_left _ _

/-- The ladder of a client, with its two counters. -/
structure LinkLadder where
  link : Link
  wssAvailable : Bool
  answered : Bool
  misses : Nat
  hits : Nat
  deriving DecidableEq, Repr

namespace LinkLadder

def new (wssAvailable : Bool) : LinkLadder :=
  { link := .udp, wssAvailable := wssAvailable, answered := false, misses := 0, hits := 0 }

variable (ladder : LinkLadder)

def setWssAvailable (available : Bool) : LinkLadder :=
  { ladder with
    wssAvailable := available
    link := if available then ladder.link else .udp }

def udpAnswered : LinkLadder := { ladder with answered := true }

/-- The counters once a round is closed. -/
def count : LinkLadder :=
  if ladder.answered then
    { ladder with answered := false, misses := 0, hits := saturatingSucc ladder.hits }
  else { ladder with hits := 0, misses := saturatingSucc ladder.misses }

def choose : Link :=
  match ladder.link with
  | .udp => if ladder.wssAvailable ∧ WSS_AFTER_UDP_MISSES ≤ ladder.misses then .wss else .udp
  | .wss => if UDP_AFTER_HITS ≤ ladder.hits then .udp else .wss

def endRound : LinkLadder :=
  { ladder.count with link := ladder.count.choose }

def udpProven : Bool := 0 < ladder.hits

def roundLength : Nat :=
  match ladder.link with
  | .udp => if 0 < ladder.hits then STEADY_ROUND else FAST_ROUND
  | .wss => STEADY_ROUND

end LinkLadder

open LinkLadder

/-! ## Sequences of calls -/

inductive LadderCall where
  | udpAnswered
  | setWssAvailable (available : Bool)
  | endRound
  deriving DecidableEq, Repr

def LinkLadder.step (ladder : LinkLadder) : LadderCall → LinkLadder
  | .udpAnswered => ladder.udpAnswered
  | .setWssAvailable available => ladder.setWssAvailable available
  | .endRound => ladder.endRound

/-- Whether UDP has answered since the last round was closed. -/
def answeredSince : Bool → List LadderCall → Bool
  | answered, [] => answered
  | _, .udpAnswered :: calls => answeredSince true calls
  | answered, .setWssAvailable _ :: calls => answeredSince answered calls
  | _, .endRound :: calls => answeredSince false calls

/-- The rounds that were closed, oldest first: whether UDP answered in each. -/
def rounds : Bool → List LadderCall → List Bool
  | _, [] => []
  | _, .udpAnswered :: calls => rounds true calls
  | answered, .setWssAvailable _ :: calls => rounds answered calls
  | answered, .endRound :: calls => answered :: rounds false calls

theorem answeredSince_snoc (answered : Bool) (calls : List LadderCall) (call : LadderCall) :
    answeredSince answered (calls ++ [call]) =
      answeredSince (answeredSince answered calls) [call] := by
  induction calls generalizing answered with
  | nil => rfl
  | cons first calls ih =>
    cases first with
    | udpAnswered => exact ih true
    | setWssAvailable available => exact ih answered
    | endRound => exact ih false

theorem rounds_snoc (answered : Bool) (calls : List LadderCall) (call : LadderCall) :
    rounds answered (calls ++ [call]) =
      rounds answered calls ++ rounds (answeredSince answered calls) [call] := by
  induction calls generalizing answered with
  | nil => rfl
  | cons first calls ih =>
    cases first with
    | udpAnswered => exact ih true
    | setWssAvailable available => exact ih answered
    | endRound => exact congrArg (answered :: ·) (ih false)

/-- The last `n` rounds all went the same way. -/
def LastRounds (n : Nat) (answered : Bool) (closed : List Bool) : Prop :=
  List.replicate n answered <:+ closed

variable {answered : Bool} {ladder : LinkLadder} {calls : List LadderCall}

theorem LastRounds.zero {closed : List Bool} : LastRounds 0 answered closed :=
  List.nil_suffix

theorem LastRounds.mono {n : Nat} {m : Nat} {closed : List Bool} (hle : m ≤ n)
    (h : LastRounds n answered closed) : LastRounds m answered closed := by
  obtain ⟨older, rfl⟩ := h
  refine ⟨older ++ List.replicate (n - m) answered, ?_⟩
  rw [List.append_assoc, List.replicate_append_replicate, Nat.sub_add_cancel hle]

theorem LastRounds.snoc {n : Nat} {closed : List Bool} (h : LastRounds n answered closed) :
    LastRounds (saturatingSucc n) answered (closed ++ [answered]) := by
  refine LastRounds.mono (saturatingSucc_le n) ?_
  obtain ⟨older, rfl⟩ := h
  refine ⟨older, ?_⟩
  rw [List.replicate_succ', List.append_assoc]

/-- The counters of a ladder are the lengths of the last streaks of rounds. -/
structure LinkLadder.Counts (ladder : LinkLadder) (calls : List LadderCall) : Prop where
  answered : ladder.answered = answeredSince false calls
  hits : LastRounds ladder.hits true (rounds false calls)
  misses : LastRounds ladder.misses false (rounds false calls)
  exclusive : ladder.hits = 0 ∨ ladder.misses = 0

theorem LinkLadder.count_eq (ladder : LinkLadder) :
    ladder.endRound.hits = (if ladder.answered then saturatingSucc ladder.hits else 0) ∧
      ladder.endRound.misses = (if ladder.answered then 0 else saturatingSucc ladder.misses) ∧
      ladder.endRound.answered = false := by
  unfold endRound count
  cases hanswered : ladder.answered with
  | true | false => exact ⟨rfl, rfl, rfl⟩

/-- Closing a round makes one streak longer and ends the other. -/
theorem LinkLadder.Counts.endRound (h : ladder.Counts calls) :
    ladder.endRound.Counts (calls ++ [.endRound]) := by
  obtain ⟨hhits, hmisses, hopen⟩ := ladder.count_eq
  have hclosed : rounds false (calls ++ [.endRound]) =
      rounds false calls ++ [ladder.answered] := by
    rw [rounds_snoc, h.answered]
    rfl
  refine ⟨?_, ?_, ?_, ?_⟩
  · rw [hopen, answeredSince_snoc]
    rfl
  · rw [hhits, hclosed]
    cases hanswered : ladder.answered with
    | true => exact h.hits.snoc
    | false => exact LastRounds.zero
  · rw [hmisses, hclosed]
    cases hanswered : ladder.answered with
    | true => exact LastRounds.zero
    | false => exact h.misses.snoc
  · rw [hhits, hmisses]
    cases ladder.answered with
    | true => exact .inr rfl
    | false => exact .inl rfl

/-- The other calls close no round and leave the counters alone. -/
theorem LinkLadder.Counts.other {ladder' : LinkLadder} {call : LadderCall}
    (h : ladder.Counts calls) (hhits : ladder'.hits = ladder.hits)
    (hmisses : ladder'.misses = ladder.misses)
    (hclosed : rounds (answeredSince false calls) [call] = [])
    (hanswered : ladder'.answered = answeredSince (answeredSince false calls) [call]) :
    ladder'.Counts (calls ++ [call]) := by
  have hrounds : rounds false (calls ++ [call]) = rounds false calls := by
    rw [rounds_snoc, hclosed, List.append_nil]
  refine ⟨?_, ?_, ?_, ?_⟩
  · rw [hanswered, answeredSince_snoc]
  · rw [hhits, hrounds]
    exact h.hits
  · rw [hmisses, hrounds]
    exact h.misses
  · rw [hhits, hmisses]
    exact h.exclusive

/-- Every call keeps the counters right for the rounds so far. -/
theorem LinkLadder.Counts.step {calls : List LadderCall} (h : ladder.Counts calls)
    (call : LadderCall) : (ladder.step call).Counts (calls ++ [call]) := by
  cases call with
  | udpAnswered => exact h.other rfl rfl rfl rfl
  | setWssAvailable available => exact h.other rfl rfl rfl h.answered
  | endRound => exact h.endRound

theorem run_counts (wssAvailable : Bool) (calls : List LadderCall) :
    (run LinkLadder.step (.new wssAvailable) calls).Counts calls := by
  have hstart : (new wssAvailable).Counts [] :=
    ⟨rfl, LastRounds.zero, LastRounds.zero, .inl rfl⟩
  exact run_history (P := fun calls ladder => Counts ladder calls) hstart
    (fun calls call h => h.step call) calls

/-! ## Changes of the link -/

theorem LinkLadder.endRound_link (ladder : LinkLadder) :
    ladder.endRound.wssAvailable = ladder.wssAvailable ∧
      ladder.endRound.link = match ladder.link with
        | .udp =>
          if ladder.wssAvailable ∧ WSS_AFTER_UDP_MISSES ≤ ladder.endRound.misses then .wss else .udp
        | .wss => if UDP_AFTER_HITS ≤ ladder.endRound.hits then .udp else .wss := by
  unfold endRound choose count
  cases ladder.answered with
  | true | false => exact ⟨rfl, rfl⟩

theorem falls_back (hudp : ladder.link = .udp) (hwss : ladder.endRound.link = .wss) :
    ladder.wssAvailable ∧ WSS_AFTER_UDP_MISSES ≤ ladder.endRound.misses := by
  rw [ladder.endRound_link.2, hudp] at hwss
  dsimp only at hwss
  split_ifs at hwss with hboth
  exact hboth

theorem promotes (hwss : ladder.link = .wss) (hudp : ladder.endRound.link = .udp) :
    UDP_AFTER_HITS ≤ ladder.endRound.hits := by
  rw [ladder.endRound_link.2, hwss] at hudp
  dsimp only at hudp
  split_ifs at hudp with hhits
  exact hhits

/-- The WebSocket carries frames only while there is one. -/
theorem step_available (h : ladder.link = .wss → ladder.wssAvailable) (call : LadderCall) :
    (ladder.step call).link = .wss → (ladder.step call).wssAvailable := by
  cases call with
  | udpAnswered => exact h
  | setWssAvailable available =>
    cases available with
    | true => exact fun _ => rfl
    | false => exact nofun
  | endRound =>
    intro hlink
    change ladder.endRound.wssAvailable
    rw [ladder.endRound_link.1]
    cases hcurrent : ladder.link with
    | udp => exact (falls_back hcurrent hlink).1
    | wss => exact h hcurrent

/-- A ladder on the WebSocket entered it at the end of a round and has stayed there; the answered
rounds it counts were closed since. -/
def EnteredWss (ladder : LinkLadder) (start : LinkLadder) (calls : List LadderCall) : Prop :=
  ladder.link = .wss → ∃ before after, calls = before ++ .endRound :: after ∧
    (run LinkLadder.step start before).link = .udp ∧
    Along LinkLadder.step (fun ladder _ => ladder.link = .wss)
      (run LinkLadder.step start (before ++ [.endRound])) after ∧
    LastRounds ladder.hits true (rounds false after) ∧
    ladder.answered = answeredSince false after

theorem EnteredWss.step {start : LinkLadder}
    (hcounts : (run LinkLadder.step start calls).Counts calls)
    (h : EnteredWss (run LinkLadder.step start calls) start calls) (call : LadderCall) :
    EnteredWss ((run LinkLadder.step start calls).step call) start (calls ++ [call]) := by
  intro hlink
  cases hcurrent : (run LinkLadder.step start calls).link with
  | udp =>
    -- only the end of a round leaves UDP, and it does so with no answered round in a row
    cases call with
    | udpAnswered => exact absurd (hcurrent.symm.trans hlink) (by decide)
    | setWssAvailable available =>
      cases available with
      | true => exact absurd (hcurrent.symm.trans hlink) (by decide)
      | false => cases hlink
    | endRound =>
      refine ⟨calls, [], rfl, hcurrent, trivial, ?_, ?_⟩
      · have hmisses := (falls_back hcurrent hlink).2
        rcases hcounts.endRound.exclusive with hhits | hnone
        · change LastRounds (endRound _).hits true _
          rw [hhits]
          exact LastRounds.zero
        · rw [hnone] at hmisses
          exact absurd hmisses (by decide)
      · exact (count_eq _).2.2
  | wss =>
    obtain ⟨before, after, heq, hudp, hstays, hhits, hanswered⟩ := h hcurrent
    have hcall : run LinkLadder.step (run LinkLadder.step start (before ++ [.endRound])) after =
        run LinkLadder.step start calls := by
      rw [← run_append, heq, List.append_assoc, List.singleton_append]
    refine ⟨before, after ++ [call], by rw [heq]; simp, hudp,
      along_append.mpr ⟨hstays, by rw [hcall]; exact hcurrent, trivial⟩, ?_, ?_⟩
    · rw [rounds_snoc, ← hanswered]
      cases call with
      | udpAnswered =>
        rw [show rounds _ [LadderCall.udpAnswered] = [] from rfl, List.append_nil]
        exact hhits
      | setWssAvailable available =>
        rw [show rounds _ [LadderCall.setWssAvailable available] = [] from rfl, List.append_nil]
        exact hhits
      | endRound =>
        change LastRounds (endRound _).hits true _
        rw [(count_eq _).1]
        cases (run LinkLadder.step start calls).answered with
        | true => exact hhits.snoc
        | false => exact LastRounds.zero
    · rw [answeredSince_snoc, ← hanswered]
      cases call with
      | udpAnswered | setWssAvailable available => rfl
      | endRound => exact (count_eq _).2.2

theorem run_entered (wssAvailable : Bool) (calls : List LadderCall) :
    EnteredWss (run LinkLadder.step (.new wssAvailable) calls) (.new wssAvailable) calls := by
  have hstart : EnteredWss (.new wssAvailable) (.new wssAvailable) [] := nofun
  exact run_history (P := fun calls ladder => EnteredWss ladder (.new wssAvailable) calls) hstart
    (fun calls call h => EnteredWss.step (run_counts wssAvailable calls) h call) calls

/-- When the link changes, over every sequence of calls: the WebSocket is used only while it is
available, it is entered only after silent rounds in a row, and it is left only after answered
rounds in a row that were closed since it was entered.  One of the two counters is always zero. -/
theorem ladder_history (wssAvailable : Bool) (calls : List LadderCall) :
    let start := new wssAvailable
    let ladder := run LinkLadder.step start calls
    (ladder.link = .wss → ladder.wssAvailable) ∧
    (ladder.link = .udp → ladder.endRound.link = .wss →
      LastRounds WSS_AFTER_UDP_MISSES false (rounds false (calls ++ [.endRound]))) ∧
    (ladder.link = .wss → ladder.endRound.link = .udp →
      ∃ before after, calls = before ++ .endRound :: after ∧
        (run LinkLadder.step start before).link = .udp ∧
        Along LinkLadder.step (fun ladder _ => ladder.link = .wss)
          (run LinkLadder.step start (before ++ [.endRound])) after ∧
        LastRounds UDP_AFTER_HITS true (rounds false (after ++ [.endRound]))) ∧
    (ladder.hits = 0 ∨ ladder.misses = 0) := by
  intro start ladder
  have hcounts : ladder.Counts calls := run_counts wssAvailable calls
  refine ⟨?_, fun hudp hwss => ?_, fun hwss hudp => ?_, hcounts.exclusive⟩
  · have hstep : ∀ (ladder : LinkLadder) call, (ladder.link = .wss → ladder.wssAvailable) →
        (ladder.step call).link = .wss → (ladder.step call).wssAvailable :=
      fun ladder call h => step_available h call
    exact run_invariant hstep calls nofun
  · exact hcounts.endRound.misses.mono (falls_back hudp hwss).2
  · obtain ⟨before, after, heq, hbefore, hstays, hhits, hanswered⟩ :=
      run_entered wssAvailable calls hwss
    refine ⟨before, after, heq, hbefore, hstays, ?_⟩
    have hcount := promotes hwss hudp
    rw [(count_eq ladder).1] at hcount
    cases hround : ladder.answered with
    | false =>
      rw [hround, if_neg Bool.false_ne_true] at hcount
      exact absurd hcount (by decide)
    | true =>
      rw [hround] at hcount
      have hlast : rounds false (after ++ [.endRound]) = rounds false after ++ [true] := by
        rw [rounds_snoc, ← hanswered, hround]
        rfl
      rw [hlast]
      exact hhits.snoc.mono hcount

end BlakTail.Relay
