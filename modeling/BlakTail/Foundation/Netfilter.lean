import Mathlib

/-!
# Packet Filter Tables

One table of a packet filter: the ordered INPUT list, one user chain, and entries of INPUT that
jump to the chain.  A packet takes the first verdict it meets; a chain that gives none returns to
INPUT, and a packet that reaches the end of INPUT takes the policy.

Commands change the table one at a time.  Each may fail, on its own account (no such chain, no
such entry) or for an outside reason, and a failed command changes nothing.
-/

namespace BlakTail.Foundation.Netfilter

variable {Rule Packet : Type}

/-- An entry of INPUT: a jump to the chain, or someone else's rule. -/
inductive Entry (Packet : Type) where
  | jump
  | foreign (verdict : Packet → Option Bool)

def Entry.isJump : Entry Packet → Bool
  | .jump => true
  | .foreign _ => false

structure PacketTable (Rule Packet : Type) where
  chain : Option (List Rule) := none
  input : List (Entry Packet) := []
  policy : Bool := true

inductive Command (Rule : Type) where
  | newChain
  | flush
  | deleteChain
  | checkJump
  | insertJump
  | deleteJump
  | append (rule : Rule)
  | insert (position : Nat) (rule : Rule)

namespace PacketTable

variable (t : PacketTable Rule Packet) {n : Nat} {fails : Nat → Bool}

def hasJump : Bool := t.input.any Entry.isJump

/-- One command on its own account; positions count from one. -/
def exec : Command Rule → Option (PacketTable Rule Packet)
  | .newChain => if t.chain.isNone then some { t with chain := some [] } else none
  | .flush => t.chain.map fun _ => { t with chain := some [] }
  | .deleteChain =>
    -- a chain that holds rules or is jumped to cannot be deleted
    if t.chain.any List.isEmpty && !t.hasJump then some { t with chain := none } else none
  | .checkJump => if t.hasJump then some t else none
  | .insertJump => t.chain.map fun _ => { t with input := .jump :: t.input }
  | .deleteJump => if t.hasJump then some { t with input := t.input.eraseP Entry.isJump } else none
  | .append rule => t.chain.map fun rules => { t with chain := some (rules ++ [rule]) }
  | .insert position rule => t.chain.bind fun rules =>
    if 1 ≤ position ∧ position ≤ rules.length + 1 then
      some { t with chain := some (rules.take (position - 1) ++ rule :: rules.drop (position - 1)) }
    else none

/-- One command, which may also fail for an outside reason. -/
def run (fails : Bool) (command : Command Rule) : PacketTable Rule Packet × Bool :=
  if fails then (t, false) else
    match t.exec command with
    | some t' => (t', true)
    | none => (t, false)

/-- Commands whose failures are ignored; `fails` tells which of them fail, counted from `n`. -/
def runAll (fails : Nat → Bool) :
    Nat → List (Command Rule) → PacketTable Rule Packet → PacketTable Rule Packet
  | _, [], t => t
  | n, command :: commands, t => runAll fails (n + 1) commands (t.run (fails n) command).1

/-- Commands up to the first that fails. -/
def runUntil (fails : Nat → Bool) :
    Nat → List (Command Rule) → PacketTable Rule Packet → PacketTable Rule Packet × Bool
  | _, [], t => (t, true)
  | n, command :: commands, t =>
    match t.run (fails n) command with
    | (t', true) => runUntil fails (n + 1) commands t'
    | (t', false) => (t', false)

/-! ## Verdicts -/

/-- The first verdict of a list of rules. -/
def walk (verdict : Rule → Packet → Option Bool) (rules : List Rule) (packet : Packet) :
    Option Bool :=
  rules.findSome? fun rule => verdict rule packet

def entryVerdict (verdict : Rule → Packet → Option Bool) (t : PacketTable Rule Packet)
    (packet : Packet) : Entry Packet → Option Bool
  | .jump => walk verdict (t.chain.getD []) packet
  | .foreign decision => decision packet

def accepts (verdict : Rule → Packet → Option Bool) (t : PacketTable Rule Packet)
    (packet : Packet) : Bool :=
  (t.input.findSome? (t.entryVerdict verdict packet)).getD t.policy

/-! ## The place of the jumps -/

/-- No foreign entry stands ahead of a jump. -/
def JumpsFirst (t : PacketTable Rule Packet) : Prop :=
  ∃ n rest, t.input = List.replicate n .jump ++ rest ∧ ∀ entry ∈ rest, entry.isJump = false

theorem eraseP_jumps {rest : List (Entry Packet)} (hrest : ∀ entry ∈ rest, entry.isJump = false) :
    (List.replicate n Entry.jump ++ rest).eraseP Entry.isJump =
      List.replicate (n - 1) Entry.jump ++ rest := by
  cases n with
  | zero =>
    refine List.eraseP_of_forall_not fun entry hentry => ?_
    simpa using hrest entry (by simpa using hentry)
  | succ n => rfl

variable {t : PacketTable Rule Packet}

theorem exec_jumpsFirst {t' : PacketTable Rule Packet} {command : Command Rule} (ht : t.JumpsFirst)
    (hexec : t.exec command = some t') : t'.JumpsFirst := by
  have hsame : t'.input = t.input → t'.JumpsFirst := by
    intro hinput
    unfold JumpsFirst
    rwa [hinput]
  cases command with
  | insertJump =>
    obtain ⟨rules, -, rfl⟩ := Option.map_eq_some_iff.mp hexec
    obtain ⟨n, rest, hinput, hrest⟩ := ht
    exact ⟨n + 1, rest, congrArg (.jump :: ·) hinput, hrest⟩
  | deleteJump =>
    obtain ⟨n, rest, hinput, hrest⟩ := ht
    rw [exec] at hexec
    split_ifs at hexec
    cases hexec
    exact ⟨n - 1, rest, by rw [hinput, eraseP_jumps hrest], hrest⟩
  | newChain | deleteChain | checkJump =>
    rw [exec] at hexec
    split_ifs at hexec
    cases hexec
    exact hsame rfl
  | flush | append =>
    obtain ⟨rules, -, rfl⟩ := Option.map_eq_some_iff.mp hexec
    exact hsame rfl
  | insert =>
    obtain ⟨rules, -, hexec⟩ := Option.bind_eq_some_iff.mp hexec
    split_ifs at hexec
    cases hexec
    exact hsame rfl

/-- A run of one command leaves the table alone or executes the command. -/
theorem run_cases (t : PacketTable Rule Packet) (fails : Bool) (command : Command Rule) :
    t.run fails command = (t, false) ∨
      ∃ t', t.exec command = some t' ∧ t.run fails command = (t', true) := by
  unfold run
  cases fails with
  | true => exact .inl rfl
  | false =>
    cases hexec : t.exec command with
    | none => exact .inl rfl
    | some t' => exact .inr ⟨t', rfl, rfl⟩

theorem run_jumpsFirst (ht : t.JumpsFirst) (fails : Bool) (command : Command Rule) :
    (t.run fails command).1.JumpsFirst := by
  rcases t.run_cases fails command with hrun | ⟨t', hexec, hrun⟩
  · rwa [hrun]
  · rw [hrun]
    exact exec_jumpsFirst ht hexec

theorem runAll_jumpsFirst (ht : t.JumpsFirst) (fails : Nat → Bool) (n : Nat)
    (commands : List (Command Rule)) : (t.runAll fails n commands).JumpsFirst := by
  induction commands generalizing n t with
  | nil => exact ht
  | cons command commands ih => exact ih (run_jumpsFirst ht (fails n) command) (n + 1)

theorem runUntil_jumpsFirst (ht : t.JumpsFirst) (fails : Nat → Bool) (n : Nat)
    (commands : List (Command Rule)) : (t.runUntil fails n commands).1.JumpsFirst := by
  induction commands generalizing n t with
  | nil => exact ht
  | cons command commands ih =>
    have hstep := run_jumpsFirst ht (fails n) command
    unfold runUntil
    rcases t.run_cases (fails n) command with hrun | ⟨t', -, hrun⟩
    · rwa [hrun] at hstep ⊢
    · rw [hrun] at hstep ⊢
      exact ih hstep (n + 1)

/-- Commands that all fail change nothing. -/
theorem runAll_of_fails (hfails : ∀ n, fails n) (n : Nat) (commands : List (Command Rule))
    (t : PacketTable Rule Packet) : t.runAll fails n commands = t := by
  induction commands generalizing n with
  | nil => rfl
  | cons command commands ih => rw [runAll, run, if_pos (hfails n), ih]

/-! ## Filling the chain -/

/-- Rules that were all appended stand at the end of the chain, in their order. -/
theorem runUntil_append {t' : PacketTable Rule Packet}
    {before rules : List Rule} (hchain : t.chain = some before)
    (hrun : t.runUntil fails n (rules.map .append) = (t', true)) :
    t' = { t with chain := some (before ++ rules) } := by
  induction rules generalizing t n before with
  | nil =>
    obtain ⟨rfl, -⟩ := Prod.mk.inj hrun
    rw [List.append_nil, ← hchain]
  | cons rule rules ih =>
    rw [List.map_cons, runUntil] at hrun
    rcases t.run_cases (fails n) (.append rule) with hfail | ⟨next, hexec, hok⟩
    · rw [hfail] at hrun
      cases hrun
    · rw [hok] at hrun
      obtain rfl : { t with chain := some (before ++ [rule]) } = next := by
        simpa [exec, hchain] using hexec
      simpa using ih rfl hrun

/-- Appends that nothing outside makes fail succeed. -/
theorem runUntil_append_ok {before : List Rule} (rules : List Rule)
    (hchain : t.chain = some before) (hfails : ∀ k < rules.length, fails (n + k) = false) :
    (t.runUntil fails n (rules.map .append)).2 := by
  induction rules generalizing t n before with
  | nil => rfl
  | cons rule rules ih =>
    have hfirst : fails n = false := hfails 0 (Nat.succ_pos _)
    rw [List.map_cons, runUntil, run, hfirst, if_neg Bool.false_ne_true, exec, hchain]
    refine ih rfl fun k hk => ?_
    have hnext := hfails (k + 1) (Nat.succ_lt_succ hk)
    rwa [Nat.add_right_comm]

/-! ## Lists of rules with one verdict -/

/-- A decision taken when a test holds. -/
def decideWhen (test decision : Bool) : Option Bool := if test then some decision else none

theorem decideWhen_or (left right decision : Bool) :
    (decideWhen left decision).or (decideWhen right decision) =
      decideWhen (left || right) decision := by
  cases left with
  | false | true => rfl

section Lists

variable {verdict : Rule → Packet → Option Bool} {packet : Packet}

theorem walk_append (front back : List Rule) :
    walk verdict (front ++ back) packet =
      (walk verdict front packet).or (walk verdict back packet) :=
  List.findSome?_append

theorem walk_cons (rule : Rule) (rules : List Rule) :
    walk verdict (rule :: rules) packet = (verdict rule packet).or (walk verdict rules packet) := by
  unfold walk
  rw [List.findSome?_cons]
  cases verdict rule packet with
  | none | some decision => rfl

theorem walk_singleton (rule : Rule) : walk verdict [rule] packet = verdict rule packet := by
  rw [walk_cons]
  exact Option.or_none

/-- Where every part decides alike, the whole decides when the test of one part holds. -/
theorem walk_flatMap {decision : Bool}
    {α : Type} {rules : α → List Rule} {test : α → Bool} {parts : List α}
    (h : ∀ part ∈ parts, walk verdict (rules part) packet = decideWhen (test part) decision) :
    walk verdict (parts.flatMap rules) packet = decideWhen (parts.any test) decision := by
  induction parts with
  | nil => rfl
  | cons part parts ih =>
    obtain ⟨hpart, hparts⟩ := List.forall_mem_cons.mp h
    rw [List.flatMap_cons, walk_append, hpart, ih hparts, decideWhen_or, List.any_cons]

/-- Rules that are written for some parts only. -/
theorem walk_filterMap {decision : Bool}
    {α : Type} {rule : α → Option Rule} {test : α → Bool} {parts : List α}
    (h : ∀ part ∈ parts, walk verdict (rule part).toList packet = decideWhen (test part) decision) :
    walk verdict (parts.filterMap rule) packet = decideWhen (parts.any test) decision := by
  rw [List.filterMap_eq_flatMap_toList]
  exact walk_flatMap h

/-- Where a part that applies decides by itself, the first part that applies decides. -/
theorem walk_first {α : Type} {rules : α → List Rule} {applies value : α → Bool} {parts : List α}
    (h : ∀ part ∈ parts, walk verdict (rules part) packet =
      decideWhen (applies part) (value part)) :
    walk verdict (parts.flatMap rules) packet = (parts.find? applies).map value := by
  induction parts with
  | nil => rfl
  | cons part parts ih =>
    obtain ⟨hpart, hparts⟩ := List.forall_mem_cons.mp h
    rw [List.flatMap_cons, walk_append, hpart, ih hparts, List.find?_cons]
    cases applies part with
    | true | false => rfl

end Lists

/-! ## Parts of which only one applies -/

section Alone

variable {α : Type}

/-- Where only one part passes the test, nothing is left to another part. -/
theorem findSome?_alone {parts : List α} {test : α → Bool}
    (halone : ∀ p ∈ parts, ∀ q ∈ parts, test p → test q → p = q)
    (value : α → Option Bool) :
    ((parts.findSome? fun part => if test part then value part else none).getD false) =
      parts.any fun part => test part && (value part).getD false := by
  rw [Bool.eq_iff_iff, List.any_eq_true]
  cases hfind : parts.findSome? fun part => if test part then value part else none with
  | none =>
    have hsilent := List.findSome?_eq_none_iff.mp hfind
    constructor
    · exact fun hfalse => absurd hfalse Bool.false_ne_true
    · rintro ⟨part, hpart, hboth⟩
      obtain ⟨hpass, hvalue⟩ := Bool.and_eq_true_iff.mp hboth
      have hnone := hsilent part hpart
      rw [if_pos hpass] at hnone
      rw [hnone] at hvalue
      exact hvalue
  | some decision =>
    obtain ⟨found, hfound, hdecides⟩ := List.exists_of_findSome?_eq_some hfind
    obtain ⟨htest, hdecides⟩ := Option.ite_none_right_eq_some.mp hdecides
    constructor
    · intro htrue
      refine ⟨found, hfound, ?_⟩
      rw [htest, hdecides]
      exact htrue
    · rintro ⟨part, hpart, hboth⟩
      obtain ⟨hpass, hvalue⟩ := Bool.and_eq_true_iff.mp hboth
      rw [← halone found hfound part hpart htest hpass, hdecides] at hvalue
      exact hvalue

/-- Where only one part passes the test, the first that passes is any that passes. -/
theorem find?_any_alone {parts : List α} {test : α → Bool}
    (halone : ∀ p ∈ parts, ∀ q ∈ parts, test p → test q → p = q)
    (value : α → Bool) :
    (parts.find? test).any value = parts.any fun part => test part && value part := by
  refine Eq.trans ?_ (findSome?_alone halone fun part => some (value part))
  clear halone
  induction parts with
  | nil => rfl
  | cons part parts ih =>
    rw [List.find?_cons, List.findSome?_cons]
    cases test part with
    | true => rfl
    | false => exact ih

end Alone

section Passive

variable {verdict : Rule → Packet → Option Bool}

/-- A rule without a verdict does not change what a list of rules decides. -/
theorem walk_insert {rule : Rule} (hrule : ∀ packet, verdict rule packet = none) (i : Nat)
    (rules : List Rule) :
    walk verdict (rules.take i ++ rule :: rules.drop i) = walk verdict rules := by
  funext packet
  unfold walk
  rw [List.findSome?_append, List.findSome?_cons, hrule packet, ← List.findSome?_append,
    List.take_append_drop]

/-- Inserting rules without verdicts keeps the entries of INPUT and what the chain decides. -/
theorem runUntil_insert {inserts : List (Nat × Rule)}
    (hpassive : ∀ insert ∈ inserts, ∀ packet, verdict insert.2 packet = none)
    (fails : Nat → Bool) (n : Nat) (t : PacketTable Rule Packet) :
    let t' := (t.runUntil fails n (inserts.map fun insert => .insert insert.1 insert.2)).1
    t'.input = t.input ∧ walk verdict (t'.chain.getD []) = walk verdict (t.chain.getD []) := by
  induction inserts generalizing n t with
  | nil => exact ⟨rfl, rfl⟩
  | cons insert inserts ih =>
    obtain ⟨hinsert, hinserts⟩ := List.forall_mem_cons.mp hpassive
    simp only [List.map_cons, runUntil]
    rcases t.run_cases (fails n) (.insert insert.1 insert.2) with hfail | ⟨next, hexec, hok⟩
    · rw [hfail]
      exact ⟨rfl, rfl⟩
    · rw [hok]
      obtain ⟨rules, hchain, hnext⟩ := Option.bind_eq_some_iff.mp hexec
      split_ifs at hnext
      cases hnext
      obtain ⟨hinput, hwalk⟩ := ih hinserts (n + 1) _
      refine ⟨hinput, hwalk.trans ?_⟩
      rw [hchain, Option.getD_some, Option.getD_some, walk_insert hinsert]

/-- Where a jump stands first and the chain decides a packet, INPUT does the same. -/
theorem accepts_of_jump (ht : t.JumpsFirst) (hjump : t.hasJump) {packet : Packet}
    {decision : Bool} (hwalk : walk verdict (t.chain.getD []) packet = some decision) :
    t.accepts verdict packet = decision := by
  obtain ⟨n, rest, hinput, hrest⟩ := ht
  cases n with
  | zero =>
    -- no jump at all
    obtain ⟨entry, hentry, hisJump⟩ := List.any_eq_true.mp hjump
    rw [hinput] at hentry
    have hnot := hrest entry (by simpa using hentry)
    rw [hisJump] at hnot
    exact absurd hnot.symm Bool.false_ne_true
  | succ n =>
    have hfirst : t.entryVerdict verdict packet .jump = some decision := hwalk
    unfold accepts
    rw [hinput, List.replicate_succ, List.cons_append, List.findSome?_cons, hfirst]
    rfl

end Passive

end PacketTable

end BlakTail.Foundation.Netfilter
