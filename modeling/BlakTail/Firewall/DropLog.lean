import BlakTail.Firewall.Plan

/-!
# Drop Logging

The log rules of `dropLogInserts` go into a chain that is complete, one by one, and the first insert
that fails is the last.  Their positions are computed before the first one runs.
-/

namespace BlakTail.Firewall

open Foundation.Netfilter PacketTable

/-- The match arguments of a rule: those ahead of its jump. -/
def matchArgs (body : List String) : List String := body.takeWhile (· ≠ "-j")

def isReject (body : List String) : Bool := ruleValue body "-j" = some "REJECT"

def isLog (body : List String) : Bool := ruleValue body "-j" = some "NFLOG"

def logCopy (forward : Bool) (body : List String) : List String :=
  logRule (matchArgs body) (logLabel forward (matchArgs body))

def limitArgs : List String := ["-m", "limit", "--limit", "50/second", "--limit-burst", "100"]

/-- The chain with log copies directly ahead of its first `k` rejecting rules. -/
def dropLogged (forward : Bool) : Nat → List (List String) → List (List String)
  | 0, bodies => bodies
  | _ + 1, [] => []
  | k + 1, body :: bodies =>
    if isReject body then logCopy forward body :: body :: dropLogged forward k bodies
    else body :: dropLogged forward (k + 1) bodies

variable {forward : Bool} {bodies : List (List String)} {body : List String}

theorem dropLogged_other (h : isReject body = false) (k : Nat) :
    dropLogged forward k (body :: bodies) = body :: dropLogged forward k bodies := by
  cases k <;> simp [dropLogged, h]

theorem logCopy_parts (forward : Bool) (body : List String) :
    matchArgs (logCopy forward body) = matchArgs body ++ limitArgs ∧
      ruleValue (logCopy forward body) "-j" = some "NFLOG" ∧
      ruleValue ((logCopy forward body).dropWhile (· ≠ "-j")) "--nflog-prefix" =
        some (logLabel forward (matchArgs body)) := by
  have hargs : ∀ word ∈ matchArgs body, decide (word ≠ "-j") := by
    intro word hword
    simpa using List.mem_takeWhile_imp hword
  unfold logCopy logRule ruleValue
  rw [matchArgs, List.takeWhile_append_of_pos hargs, List.dropWhile_append_of_pos hargs]
  exact ⟨rfl, rfl, rfl⟩

theorem isLog_logCopy : isLog (logCopy forward body) := by
  simp [isLog, logCopy_parts]

theorem dropLogged_bare (hbare : ∀ body ∈ bodies, isLog body = false) (k : Nat) :
    (dropLogged forward k bodies).filter (!isLog ·) = bodies := by
  fun_induction dropLogged forward k bodies with
  | case1 => simpa using hbare
  | case2 => rfl
  | case3 k body bodies hreject ih =>
    obtain ⟨hbody, hbodies⟩ := List.forall_mem_cons.mp hbare
    simp [isLog_logCopy, hbody, ih hbodies]
  | case4 k body bodies hreject ih =>
    obtain ⟨hbody, hbodies⟩ := List.forall_mem_cons.mp hbare
    simp [hbody, ih hbodies]

theorem dropLogInserts_cons (index inserted : Nat) :
    dropLogInserts forward index inserted (body :: bodies) =
      if isReject body then (index + 1 + inserted, logCopy forward body) ::
        dropLogInserts forward (index + 1) (inserted + 1) bodies
      else dropLogInserts forward (index + 1) inserted bodies := by
  simp [dropLogInserts, isReject, ruleValue, logCopy, matchArgs]

/-! ## The inserts -/

variable {Packet : Type}

/-- The inserts that run put the first log rules in place, behind what stands ahead of the rules. -/
theorem runUntil_dropLogged {fails : Nat → Bool}
    (t : PacketTable (List String) Packet) (front : List (List String))
    (n index inserted : Nat) (hfront : front.length = index + inserted) :
    ∃ k ≤ bodies.countP isReject, (∀ j < k, fails (n + j) = false) ∧
      (k < bodies.countP isReject → fails (n + k)) ∧
      (runUntil fails n ((dropLogInserts forward index inserted bodies).map
        fun insert => .insert insert.1 insert.2) { t with chain := some (front ++ bodies) }).1 =
          { t with chain := some (front ++ dropLogged forward k bodies) } := by
  induction bodies generalizing n front index inserted with
  | nil => exact ⟨0, le_rfl, nofun, nofun, rfl⟩
  | cons body bodies ih =>
    rw [dropLogInserts_cons]
    cases hreject : isReject body with
    | false =>
      rw [List.countP_cons_of_neg (by simp [hreject])]
      obtain ⟨k, hk, hran, hstop, hrest⟩ :=
        ih (front ++ [body]) n (index + 1) inserted (by simp; omega)
      refine ⟨k, hk, hran, hstop, ?_⟩
      rw [dropLogged_other hreject]
      simpa using hrest
    | true =>
      rw [List.countP_cons_of_pos hreject, if_pos rfl, List.map_cons, runUntil, run]
      cases hfails : fails n with
      | true => exact ⟨0, Nat.zero_le _, nofun, fun _ => hfails, rfl⟩
      | false =>
        -- the place ahead of the rule is behind everything that stands there already
        have hplace : index + 1 + inserted - 1 = front.length := by omega
        have hexec : exec { t with chain := some (front ++ body :: bodies) }
            (.insert (index + 1 + inserted) (logCopy forward body)) =
              some { t with chain := some (front ++ [logCopy forward body, body] ++ bodies) } := by
          simp [exec, hplace]
          omega
        obtain ⟨k, hk, hran, hstop, hrest⟩ := ih (front ++ [logCopy forward body, body]) (n + 1)
          (index + 1) (inserted + 1) (by simp; omega)
        refine ⟨k + 1, Nat.succ_le_succ hk, fun j hj => ?_, fun hlt => ?_, ?_⟩
        · cases j with
          | zero => exact hfails
          | succ j => exact Nat.add_right_comm n 1 j ▸ hran j (by omega)
        · exact Nat.add_right_comm n 1 k ▸ hstop (by omega)
        · simp only [hexec, Bool.false_eq_true, if_false]
          rw [hrest]
          simp [dropLogged, hreject]

/-! ## What packets meet -/

/-- What match arguments select and targets decide: a log target nothing, and the rate limit of the
log rules is left aside. -/
structure Meaning (Packet Verdict : Type) where
  selects : List String → Packet → Bool
  decides : String → Option Verdict
  limit : ∀ args packet, selects (args ++ limitArgs) packet = selects args packet
  log : decides "NFLOG" = none
  reject : (decides "REJECT").isSome

namespace Meaning

variable {Verdict : Type} (m : Meaning Packet Verdict)

/-- What a rule decides about a packet. -/
def verdict (packet : Packet) (body : List String) : Option Verdict :=
  if m.selects (matchArgs body) packet then (ruleValue body "-j").bind m.decides else none

/-- The labels a packet is logged under until a rule decides about it. -/
def logs (packet : Packet) : List (List String) → List String
  | [] => []
  | body :: bodies =>
    if isLog body && m.selects (matchArgs body) packet then
      (ruleValue (body.dropWhile (· ≠ "-j")) "--nflog-prefix").toList ++ logs packet bodies
    else if (m.verdict packet body).isSome then [] else logs packet bodies

/-- The label for the rule that rejects a packet, if the first that decides does. -/
def rejectLabel (forward : Bool) (packet : Packet) (bodies : List (List String)) : Option String :=
  ((bodies.find? fun body => (m.verdict packet body).isSome).filter isReject).map
    fun body => logLabel forward (matchArgs body)

theorem verdict_logCopy (packet : Packet) : m.verdict packet (logCopy forward body) = none := by
  simp [verdict, logCopy_parts, m.log]

theorem dropLogged_verdict (k : Nat) (packet : Packet) :
    (dropLogged forward k bodies).findSome? (m.verdict packet) =
      bodies.findSome? (m.verdict packet) := by
  fun_induction dropLogged forward k bodies with
  | case1 | case2 => rfl
  | case3 k body bodies hreject ih => simp [List.findSome?_cons, verdict_logCopy, ih]
  | case4 k body bodies hreject ih => simp [List.findSome?_cons, ih]

/-- With every log rule in place, a packet is logged for the rule that rejects it and no other. -/
theorem dropLogged_logs (hbare : ∀ body ∈ bodies, isLog body = false) (packet : Packet) :
    m.logs packet (dropLogged forward (bodies.countP isReject) bodies) =
      (m.rejectLabel forward packet bodies).toList := by
  induction bodies with
  | nil => rfl
  | cons body bodies ih =>
    obtain ⟨hbody, hbodies⟩ := List.forall_mem_cons.mp hbare
    have hrest := ih hbodies
    unfold rejectLabel at hrest ⊢
    cases hreject : isReject body with
    | false =>
      rw [List.countP_cons_of_neg (by simp [hreject]), dropLogged_other hreject, logs, hbody, hrest,
        List.find?_cons]
      cases (m.verdict packet body).isSome <;> simp [hreject]
    | true =>
      have hjump : ruleValue body "-j" = some "REJECT" := by simpa [isReject] using hreject
      rw [List.countP_cons_of_pos hreject, dropLogged, if_pos hreject, logs, verdict_logCopy,
        (logCopy_parts forward body).1, m.limit, isLog_logCopy, (logCopy_parts forward body).2.2,
        logs, hbody, hrest]
      cases hpacket : m.selects (matchArgs body) packet with
      | true => simp [verdict, hpacket, hjump, m.reject, Option.filter, hreject]
      | false => simp [verdict, hpacket]

/-- Whatever rules stand in the chain and wherever the inserts stop: the chain is the rules with
one log copy directly ahead of each of the first `k` rejecting ones, `k` the number of inserts that
ran, and decides as the rules do.  Of rules that log nothing themselves it is those without its log
rules, and once all inserts have run, a packet is logged exactly under the label of the rule that
rejects it. -/
theorem drop_logs_decide_nothing (forward : Bool) (bodies : List (List String))
    (t : PacketTable (List String) Packet) (fails : Nat → Bool) (n : Nat) :
    ∃ k ≤ bodies.countP isReject, (∀ j < k, fails (n + j) = false) ∧
      (k < bodies.countP isReject → fails (n + k)) ∧
      let held := dropLogged forward k bodies
      (runUntil fails n ((dropLogInserts forward 0 0 bodies).map
        fun insert => .insert insert.1 insert.2) { t with chain := some bodies }).1 =
          { t with chain := some held } ∧
      (∀ packet, held.findSome? (m.verdict packet) = bodies.findSome? (m.verdict packet)) ∧
      ((∀ body ∈ bodies, isLog body = false) → held.filter (!isLog ·) = bodies ∧
        (k = bodies.countP isReject →
          ∀ packet, m.logs packet held = (m.rejectLabel forward packet bodies).toList)) := by
  obtain ⟨k, hk, hran, hstop, hrun⟩ := runUntil_dropLogged t [] n 0 0 rfl
  refine ⟨k, hk, hran, hstop, hrun, m.dropLogged_verdict k, fun hbare =>
    ⟨dropLogged_bare hbare k, ?_⟩⟩
  rintro rfl
  exact m.dropLogged_logs hbare

/-- Rules that select by port, and reject. -/
def ports : Meaning Nat Bool where
  selects args port := !args.contains "--dport" || port = 22
  decides target := if target = "REJECT" then some false else none
  limit args port := by simp [limitArgs]
  log := rfl
  reject := rfl

/-- One reject for a port and one for the rest: a packet to another port is logged by default. -/
theorem drop_logs_decide_nothing_ports :
    let bodies := [["-p", "tcp", "--dport", "22", "-j", "REJECT"], ["-j", "REJECT"]]
    ports.logs 80 (dropLogged false 2 bodies) = ["bt:acl:default"] := by
  intro bodies
  obtain ⟨k, hk, -, hstop, -, -, hbare⟩ :=
    ports.drop_logs_decide_nothing false bodies {} (fun _ => false) 0
  -- no insert fails, so both have run
  obtain rfl : k = 2 := hk.eq_of_not_lt fun hlt => Bool.false_ne_true (hstop hlt)
  exact (hbare (by decide)).2 rfl 80

end Meaning

end BlakTail.Firewall
