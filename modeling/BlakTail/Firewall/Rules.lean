import BlakTail.Access.Faithful
import BlakTail.Firewall.Plan

/-!
# What Rules Select

The agent writes rules as argument lists.  `Selectors` are the arguments that select packets, in
the order the agent writes them; `ruleMatches_rule` reads a rule back as the conjunction of what
its selectors ask for, provided none of the words between looks like a flag.  Addresses, networks
and ports as the agent writes them never do.

`iptablesPort` and `parseAclPortSpec` read the same port selections (`iptablesPort_eq`), so a
rule for a port selects what the selection covers.
-/

namespace BlakTail.Firewall

open Foundation Foundation.Netfilter Control Access

/-! ## Selectors -/

/-- The words that mean something at any place of a rule. -/
def flags : List String := ["conntrack", "-s", "-d", "-p", "--dport", "-j"]

/-- A word that is only read as the argument of the flag before it. -/
def Operand (word : String) : Prop := word ∉ flags

instance (word : String) : Decidable (Operand word) := inferInstanceAs (Decidable (word ∉ flags))

structure Selectors where
  source : Option String := none
  destination : Option String := none
  protocol : Option String := none
  port : Option String := none

namespace Selectors

/-- An argument with its flag, if there is one. -/
def argument (flag : String) : Option String → List String
  | none => []
  | some word => [flag, word]

/-- The rule with these selectors and the target with its options. -/
def rule (selectors : Selectors) (target : List String) : List String :=
  argument "-s" selectors.source ++ argument "-d" selectors.destination ++
    argument "-p" selectors.protocol ++ argument "--dport" selectors.port ++ "-j" :: target

/-- No argument looks like a flag. -/
structure Plain (selectors : Selectors) : Prop where
  source : ∀ word ∈ selectors.source, Operand word
  destination : ∀ word ∈ selectors.destination, Operand word
  protocol : ∀ word ∈ selectors.protocol, Operand word
  port : ∀ word ∈ selectors.port, Operand word

end Selectors

theorem ruleValue_found (flag : String) (rest : List String) :
    ruleValue (flag :: rest) flag = rest.head? := by
  simp [ruleValue]

variable {word flag : String}

theorem ruleValue_skip (hword : word ≠ flag) (rest : List String) :
    ruleValue (word :: rest) flag = ruleValue rest flag := by
  simp [ruleValue, hword]

theorem Operand.ne (hword : Operand word) (hflag : flag ∈ flags) :
    word ≠ flag := fun heq => hword (heq ▸ hflag)

theorem none_operand : ∀ word ∈ (none : Option String), Operand word := by
  intro word hword
  cases hword

theorem nil_operands : ∀ word ∈ ([] : List String), Operand word :=
  nofun

theorem ruleValue_operands {words : List String} (hwords : ∀ word ∈ words, Operand word)
    (hflag : flag ∈ flags) : ruleValue words flag = none := by
  induction words with
  | nil => rfl
  | cons word words ih =>
    have hword : word ≠ flag := (hwords word List.mem_cons_self).ne hflag
    rw [ruleValue_skip hword]
    exact ih fun other hother => hwords other (List.mem_cons_of_mem _ hother)

/-- A flag's own argument is found, and those of other flags are skipped. -/
theorem ruleValue_arguments {args : List (String × Option String)}
    (hargs : ∀ arg ∈ args, ∀ word ∈ arg.2, Operand word) (hflag : flag ∈ flags)
    (rest : List String) :
    ruleValue (args.flatMap (fun arg => Selectors.argument arg.1 arg.2) ++ rest) flag =
      args.foldr (fun arg found => if arg.1 = flag then arg.2.or found else found)
        (ruleValue rest flag) := by
  induction args with
  | nil => rfl
  | cons arg args ih =>
    obtain ⟨name, value⟩ := arg
    obtain ⟨hvalue, hothers⟩ := List.forall_mem_cons.mp hargs
    rw [List.flatMap_cons, List.append_assoc, List.foldr_cons, ← ih hothers]
    cases value with
    | none => simp [Selectors.argument]
    | some word =>
      have hword : word ≠ flag := (hvalue word rfl).ne hflag
      change ruleValue (name :: word :: _) flag = _
      by_cases hname : name = flag
      · rw [if_pos hname, hname]
        exact ruleValue_found flag _
      · rw [if_neg hname, ruleValue_skip hname, ruleValue_skip hword]
        rfl

section Rule

variable {selectors : Selectors} {target : List String}

section

variable (hplain : selectors.Plain)
include hplain

theorem ruleValue_rule (hflag : flag ∈ flags) :
    ruleValue (selectors.rule target) flag =
      [("-s", selectors.source), ("-d", selectors.destination), ("-p", selectors.protocol),
        ("--dport", selectors.port)].foldr
        (fun arg found => if arg.1 = flag then arg.2.or found else found)
        (ruleValue ("-j" :: target) flag) := by
  rw [← ruleValue_arguments ?_ hflag]
  · simp [Selectors.rule]
  · simpa using ⟨hplain.source, hplain.destination, hplain.protocol, hplain.port⟩

theorem ruleValue_jump : ruleValue (selectors.rule target) "-j" = target.head? := by
  rw [ruleValue_rule hplain (by decide), ruleValue_found]
  rfl

section

variable (htarget : ∀ word ∈ target, Operand word)
include htarget

/-- A rule gives each flag its selector, if its target names none. -/
theorem ruleValue_selectors :
    ruleValue (selectors.rule target) "-s" = selectors.source ∧
      ruleValue (selectors.rule target) "-d" = selectors.destination ∧
      ruleValue (selectors.rule target) "-p" = selectors.protocol ∧
      ruleValue (selectors.rule target) "--dport" = selectors.port := by
  have hnone : ∀ flag ∈ flags, "-j" ≠ flag → ruleValue ("-j" :: target) flag = none := by
    intro flag hflag hjump
    rw [ruleValue_skip hjump, ruleValue_operands htarget hflag]
  refine ⟨?_, ?_, ?_, ?_⟩
  all_goals
    rw [ruleValue_rule hplain (by decide), hnone _ (by decide) (by decide)]
    simp

theorem conntrack_not_mem : "conntrack" ∉ selectors.rule target := by
  have hargument : ∀ (flag : String) (value : Option String), flag ≠ "conntrack" →
      (∀ word ∈ value, Operand word) → "conntrack" ∉ Selectors.argument flag value := by
    intro flag value hflag hvalue hmem
    cases value with
    | none => cases hmem
    | some word =>
      rcases List.mem_cons.mp hmem with heq | hmem
      · exact hflag heq.symm
      · exact (hvalue word rfl).ne (by decide) (List.mem_singleton.mp hmem).symm
  unfold Selectors.rule
  simp only [List.mem_append, List.mem_cons, not_or]
  refine ⟨⟨⟨⟨hargument _ _ (by decide) hplain.source, hargument _ _ (by decide) hplain.destination⟩,
    hargument _ _ (by decide) hplain.protocol⟩, hargument _ _ (by decide) hplain.port⟩,
    by decide, fun hmem => htarget _ hmem (by decide)⟩

/-- A rule selects what all of its selectors ask for. -/
theorem ruleMatches_rule (conn : Connection) :
    ruleMatches (selectors.rule target) conn =
      (selectors.source.all (fun source => IpAddr.parse source == some conn.source) &&
        selectors.protocol.all (fun name => protocolNumber name == some conn.protocol) &&
        selectors.port.all (portMatches conn.port)) := by
  have hnew : (selectors.rule target).contains "conntrack" = false :=
    Bool.eq_false_iff.mpr fun h => conntrack_not_mem hplain htarget (List.contains_iff_mem.mp h)
  obtain ⟨hsource, -, hprotocol, hport⟩ := ruleValue_selectors hplain htarget
  unfold ruleMatches
  rw [hnew, hsource, hprotocol, hport]
  rfl

end

end

/-- The word behind the jump of a rule that decides. -/
def decision (accept : Bool) : String := if accept then "ACCEPT" else "REJECT"

theorem decision_operands {options : List String} (hoptions : ∀ word ∈ options, Operand word)
    (accept : Bool) : ∀ word ∈ decision accept :: options, Operand word := by
  intro word hword
  rcases List.mem_cons.mp hword with rfl | hword
  · cases accept <;> decide
  · exact hoptions word hword

/-- A deciding rule decides what it selects. -/
theorem ruleVerdict_rule (hplain : selectors.Plain) {options : List String}
    (hoptions : ∀ word ∈ options, Operand word) (accept : Bool) (conn : Connection) :
    ruleVerdict (selectors.rule (decision accept :: options)) conn =
      PacketTable.decideWhen
        (selectors.source.all (fun source => IpAddr.parse source == some conn.source) &&
          selectors.protocol.all (fun name => protocolNumber name == some conn.protocol) &&
          selectors.port.all (portMatches conn.port)) accept := by
  unfold ruleVerdict
  rw [ruleValue_jump hplain, ruleMatches_rule hplain (decision_operands hoptions accept)]
  cases accept with
  | false | true => rfl

end Rule

/-! ## Words the agent writes -/

theorem beq_number {found : Option Nat} {number : Nat} (hfound : found = some number)
    (protocol : Nat) : (found == some protocol) = decide (protocol = number) := by
  rw [hfound, Bool.eq_iff_iff, beq_iff_eq, decide_eq_true_eq, Option.some.injEq]
  exact eq_comm

theorem operand_of_address {address : IpAddr} (h : IpAddr.parse word = some address) :
    Operand word := by
  intro hflag
  have hnone : ∀ flag ∈ flags, IpAddr.parse flag = none := by decide
  rw [hnone word hflag] at h
  cases h

/-- The port or range of ports as `--dport` takes it. -/
def portText (bounds : Nat × Nat) : String :=
  if bounds.1 = bounds.2 then toString bounds.1
  else toString bounds.1 ++ ":" ++ toString bounds.2

/-- Agent and coordinator read the same port selections. -/
theorem iptablesPort_eq (spec : String) :
    iptablesPort spec = (parseAclPortSpec spec).toOption.map portText := by
  unfold iptablesPort parseAclPortSpec
  by_cases hstar : Text.trim spec = "*"
  · rw [if_pos hstar, if_pos hstar]
    decide
  rw [if_neg hstar, if_neg hstar]
  cases hsplit : Text.splitOnce '-' (Text.trim spec) with
  | none =>
    simp only [Option.getD_none]
    cases hport : Text.parseU16 (Text.trim spec) with
    | none => rfl
    | some port =>
      by_cases hzero : port = 0
      · simp [hzero, Except.toOption]
      · simp [hzero, Except.toOption, portText]
  | some parts =>
    simp only [Option.getD_some]
    cases hfirst : Text.parseU16 parts.1 with
    | none => rfl
    | some first =>
      cases hlast : Text.parseU16 parts.2 with
      | none => rfl
      | some last =>
        by_cases hbad : first = 0 ∨ last = 0 ∨ last < first
        · simp [hbad, Except.toOption]
        · simp [hbad, Except.toOption, portText]

/-- A rule for a port selection selects the ports it covers. -/
theorem portMatches_portText {bounds : Nat × Nat} (hfirst : bounds.1 ≤ 65535)
    (hlast : bounds.2 ≤ 65535) (port : Nat) :
    portMatches port (portText bounds) = (bounds.1 ≤ port && port ≤ bounds.2) := by
  have hcolon : ':' ∉ (toString bounds.1).toList := Text.toString_no (by decide)
  unfold portText
  by_cases hone : bounds.1 = bounds.2
  · rw [if_pos hone, portMatches, Text.splitOnce_eq_none hcolon, Option.getD_none]
    dsimp only
    rw [Text.parseU16_toString hfirst, ← hone]
    rfl
  · rw [if_neg hone, portMatches, Text.splitOnce_append hcolon rfl, Option.getD_some]
    dsimp only
    rw [Text.parseU16_toString hfirst, Text.parseU16_toString hlast]
    rfl

/-- A word with a digit in it is no flag. -/
theorem operand_of_digit (h : word.toList.any Char.isDigit) : Operand word := by
  intro hflag
  have hnone : ∀ flag ∈ flags, flag.toList.any Char.isDigit = false := by decide
  rw [hnone word hflag] at h
  cases h

theorem portText_digit (bounds : Nat × Nat) :
    (portText bounds).toList.any Char.isDigit := by
  have hdigits : (toString bounds.1).toList.any Char.isDigit := by
    rw [List.any_eq_true]
    have hne : (toString bounds.1).toList ≠ [] := by
      rw [Text.toString_toList]
      exact Nat.toDigits_ne_nil
    obtain ⟨c, hc⟩ := List.exists_mem_of_ne_nil _ hne
    exact ⟨c, hc, Text.toString_digits c hc⟩
  unfold portText
  split
  · exact hdigits
  · rw [String.toList_append, String.toList_append, List.any_append, List.any_append, hdigits]
    rfl

/-- A readable port selection becomes a word whose rule selects what the selection covers. -/
theorem iptablesPort_covers {spec : String} (h : iptablesPort spec = some word) :
    Operand word ∧ ∀ port, portMatches port word = specCovers spec port := by
  rw [iptablesPort_eq] at h
  obtain ⟨bounds, hbounds, rfl⟩ := Option.map_eq_some_iff.mp h
  refine ⟨operand_of_digit (portText_digit bounds), fun port => ?_⟩
  cases hspec : parseAclPortSpec spec with
  | error message => rw [hspec] at hbounds; cases hbounds
  | ok range =>
    rw [hspec] at hbounds
    cases hbounds
    obtain ⟨-, hordered, hhigh⟩ := parseAclPortSpec_bounds hspec
    rw [portMatches_portText (hordered.trans hhigh) hhigh, specCovers, hspec]

/-- An unreadable one covers nothing. -/
theorem specCovers_of_unreadable {spec : String} (h : iptablesPort spec = none) (port : Nat) :
    specCovers spec port = false := by
  rw [iptablesPort_eq] at h
  unfold specCovers
  cases hspec : parseAclPortSpec spec with
  | error message => rfl
  | ok range => rw [hspec] at h; cases h

end BlakTail.Firewall
