import BlakTail.Forwarding.Agent
import BlakTail.Foundation.Calls
import BlakTail.Foundation.History

/-!
# Installing the Forward Filter

The chain for forwarded traffic is replaced without a gap: the new chain is built under a staging
name and jumped to before the old one goes, then it is renamed.  Every command may fail, and the
next call starts from what the last one left.
-/

namespace BlakTail.Forwarding

open Foundation Foundation.Netfilter Firewall Agent

def FORWARD_CHAIN : String := "BLAKTAIL-FWD"
def STAGING_CHAIN : String := "BLAKTAIL-FWD-NEW"
def JUMP_COMMENT : String := "blaktail-forward"

inductive Chain where
  | live
  | staging
  deriving DecidableEq

def Chain.name : Chain → String
  | .live => FORWARD_CHAIN
  | .staging => STAGING_CHAIN

/-- One family's tables, as far as these commands see them: the two chains, and the jumps to them
from FORWARD in order. -/
structure Rules where
  chains : Chain → Option (List (List String)) := fun _ => none
  jumps : List Chain := []

inductive Cmd where
  | deleteJump (chain : Chain)
  | insertJump (chain : Chain)
  | flush (chain : Chain)
  | deleteChain (chain : Chain)
  | newChain (chain : Chain)
  | append (chain : Chain) (rule : List String)
  | insert (chain : Chain) (position : Nat) (rule : List String)
  | rename (source target : Chain)

/-- The words of a jump's rule. -/
def jump (interface : String) (chain : Chain) : List String :=
  ["-i", interface, "-m", "comment", "--comment", JUMP_COMMENT, "-j", chain.name]

def Cmd.args (interface : String) : Cmd → List String
  | .deleteJump chain => ["-D", "FORWARD"] ++ jump interface chain
  | .insertJump chain => ["-I", "FORWARD", "1"] ++ jump interface chain
  | .flush chain => ["-F", chain.name]
  | .deleteChain chain => ["-X", chain.name]
  | .newChain chain => ["-N", chain.name]
  | .append chain rule => ["-A", chain.name] ++ rule
  | .insert chain position rule => ["-I", chain.name, toString position] ++ rule
  | .rename source target => ["-E", source.name, target.name]

namespace Rules

variable (t : Rules)

def set (chain : Chain) (rules : Option (List (List String))) : Rules :=
  { t with chains := Function.update t.chains chain rules }

@[simp] theorem set_self (chain : Chain) (rules : Option (List (List String))) :
    (t.set chain rules).chains chain = rules := by
  simp [set]

theorem set_of_ne {chain other : Chain} (hne : other ≠ chain)
    (rules : Option (List (List String))) : (t.set chain rules).chains other = t.chains other := by
  simp [set, hne]

/-- One command on its own account.  A command may fail for any other reason as well, so what
iptables refuses besides (a chain that holds rules is not deleted, a name that is taken is not
given) needs no case. -/
def exec : Cmd → Option Rules
  | .newChain chain => if (t.chains chain).isNone then some (t.set chain (some [])) else none
  | .flush chain => (t.chains chain).map fun _ => t.set chain (some [])
  | .deleteChain chain =>
    if chain ∉ t.jumps ∧ (t.chains chain).isSome then some (t.set chain none) else none
  | .append chain rule => (t.chains chain).map fun rules => t.set chain (some (rules ++ [rule]))
  | .insert chain position rule => (t.chains chain).map fun rules =>
    t.set chain (some (rules.take (position - 1) ++ rule :: rules.drop (position - 1)))
  | .insertJump chain => (t.chains chain).map fun _ => { t with jumps := chain :: t.jumps }
  | .deleteJump chain =>
    if chain ∈ t.jumps then some { t with jumps := t.jumps.erase chain } else none
  | .rename source target => (t.chains source).map fun rules =>
    { chains := Function.update (Function.update t.chains source none) target (some rules)
      jumps := t.jumps.map fun chain => if chain = source then target else chain }

end Rules

/-! ## One call -/

/-- Programs that run commands; each answers whether it succeeded. -/
abbrev Script (α : Type) := Prog Cmd (fun _ => Bool) α

/-- A command fails when `fails` says so for its place in the run, or on its own account; then it
changes nothing. -/
def answer (fails : Nat → Bool) (s : Rules × Nat) (command : Cmd) : Bool × Rules × Nat :=
  match if fails s.2 then none else s.1.exec command with
  | some t => (true, t, s.2 + 1)
  | none => (false, s.1, s.2 + 1)

section Script

variable (bin interface : String)

def must (command : Cmd) : Script (Except String Unit) := do
  if ← Prog.ask command then return .ok ()
  else return .error (bin ++ " " ++ " ".intercalate ((command.args interface).take 2) ++
    " failed while installing the forward filter")

/-- Commands up to the first that fails. -/
def mustAll : List Cmd → Script (Except String Unit)
  | [] => return .ok ()
  | command :: commands => do
    match ← must bin interface command with
    | .ok () => mustAll commands
    | .error error => return .error error

/-- Commands as far as they succeed. -/
def bestEffort : List Cmd → Script Unit
  | [] => return ()
  | command :: commands => do
    if ← Prog.ask command then bestEffort commands else return ()

/-- Removes the jumps to a chain, four at most, and the chain. -/
def discard (chain : Chain) : Script Unit := do
  let _ ← Prog.each (fun command => Prog.ask command)
    (List.replicate 4 (Cmd.deleteJump chain) ++ [.flush chain, .deleteChain chain])
  return ()

/-- Builds the staging chain and jumps to it. -/
def stage (rules : List (List String)) : Script (Except String Unit) := do
  match ← mustAll bin interface (.newChain .staging :: rules.map (.append .staging)) with
  | .error error => return .error error
  | .ok () =>
    -- log copies are best effort
    bestEffort ((dropLogInserts true 0 0 rules).map fun insert =>
      Cmd.insert .staging insert.1 insert.2)
    must bin interface (.insertJump .staging)

/-- Replaces the live chain for one family with `rules`. -/
def install (rules : List (List String)) : Script (Except String Unit) := do
  discard .staging
  match ← stage bin interface rules with
  | .error error =>
    discard .staging
    return .error error
  | .ok () =>
    discard .live
    must bin interface (.rename .staging .live)

end Script

/-! ## Scripts and tables -/

section Meets

variable {α β : Type} {fails : Nat → Bool} {bin interface : String} {Inv : Rules → Prop}
  {Q : α → Rules → Prop} {t : Rules}

/-- Wherever in the run it starts, the script makes every command in tables that keep `Inv`, and
ends in `Q`. -/
def Meets (fails : Nat → Bool) (Inv : Rules → Prop) (Q : α → Rules → Prop) (script : Script α)
    (t : Rules) : Prop :=
  ∀ n, script.Under (answer fails) (fun s => Inv s.1) (fun result s => Q result s.1) (t, n)

theorem meets_pure {a : α} (h : Q a t) : Meets fails Inv Q (pure a) t :=
  fun _ => Prog.under_pure h

theorem Meets.bind {script : Script α}
    {next : α → Script β} {R : β → Rules → Prop} (h : Meets fails Inv Q script t)
    (hnext : ∀ a t, Q a t → Meets fails Inv R (next a) t) : Meets fails Inv R (script >>= next) t :=
  fun n => (h n).bind fun a s hs => hnext a s.1 hs s.2

theorem Meets.mono {Inv' : Rules → Prop} {Q' : α → Rules → Prop} {script : Script α}
    (h : Meets fails Inv Q script t) (hinv : ∀ t, Inv t → Inv' t)
    (hpost : ∀ a t, Q a t → Q' a t) : Meets fails Inv' Q' script t :=
  fun n => ⟨fun made hmade => hinv _ ((h n).1 made hmade), hpost _ _ (h n).2⟩

/-- A command succeeds with its effect, or it fails and changes nothing. -/
theorem meets_ask {command : Cmd} {Q : Bool → Rules → Prop} (hinv : Inv t)
    (hok : ∀ t', t.exec command = some t' → Q true t') (hfail : Q false t) :
    Meets fails Inv Q (Prog.ask command) t := by
  intro n
  refine ⟨(Prog.throughout_ask ..).mpr hinv, ?_⟩
  dsimp only [Prog.ask, Prog.exec, answer]
  split
  · next t' hexec =>
    split_ifs at hexec
    exact hok t' hexec
  · exact hfail

theorem meets_must {command : Cmd} {Q : Except String Unit → Rules → Prop} (hinv : Inv t)
    (hok : ∀ t', t.exec command = some t' → Q (.ok ()) t') (hfail : ∀ error, Q (.error error) t) :
    Meets fails Inv Q (must bin interface command) t := by
  have hask : Meets fails Inv
      (fun ok t' => if ok = true then Q (.ok ()) t' else ∀ error, Q (.error error) t')
      (Prog.ask command) t :=
    meets_ask hinv (fun t' hexec => hok t' hexec) hfail
  refine hask.bind fun ok t' h => ?_
  cases ok with
  | true => exact meets_pure h
  | false => exact meets_pure (h _)

/-- Commands whose failures are ignored keep what each of them keeps. -/
theorem meets_each {P : Rules → Prop} {commands : List Cmd}
    (hkeeps : ∀ command ∈ commands, ∀ t t', P t → t.exec command = some t' → P t') (ht : P t) :
    Meets fails P (fun _ t => P t) (Prog.each (fun command => Prog.ask command) commands) t := by
  intro n
  refine Prog.under_each (fun command hmem s hs => ?_) ht
  exact (meets_ask hs (fun t' hexec => hkeeps command hmem s.1 t' hs hexec) hs) s.2

theorem meets_discard {P : Rules → Prop} {chain : Chain}
    (hkeeps : ∀ command ∈ [Cmd.deleteJump chain, .flush chain, .deleteChain chain], ∀ t t', P t →
      t.exec command = some t' → P t')
    (ht : P t) : Meets fails P (fun _ t => P t) (discard chain) t := by
  refine (meets_each (fun command hmem => hkeeps command ?_) ht).bind fun _ _ h => meets_pure h
  simpa using hmem

end Meets

/-! ## Complete chains -/

/-- The chain is the rule list, with log copies between the rules. -/
inductive Logged : List (List String) → List (List String) → Prop where
  | nil : Logged [] []
  | rule {rules chain : List (List String)} (body : List String) (h : Logged rules chain) :
      Logged (body :: rules) (body :: chain)
  | log {rules chain : List (List String)} (body : List String)
      (hlog : ruleValue body "-j" = some "NFLOG") (h : Logged rules chain) :
      Logged rules (body :: chain)

theorem Logged.refl (rules : List (List String)) : Logged rules rules := by
  induction rules with
  | nil => exact .nil
  | cons body rules ih => exact .rule body ih

variable {rules : List (List String)} {t : Rules} {known : List (List (List String))} {t' : Rules}

/-- Inserting a log rule anywhere changes nothing about the rules. -/
theorem Logged.insert {chain : List (List String)} (h : Logged rules chain) {body : List String}
    (hlog : ruleValue body "-j" = some "NFLOG") (position : Nat) :
    Logged rules (chain.take position ++ body :: chain.drop position) := by
  induction h generalizing position with
  | nil =>
    rw [List.take_nil, List.drop_nil]
    exact .log body hlog .nil
  | rule first hrest ih =>
    cases position with
    | zero => exact .log body hlog (.rule first hrest)
    | succ position => exact .rule first (ih position)
  | log first hfirst hrest ih =>
    cases position with
    | zero => exact .log body hlog (.log first hfirst hrest)
    | succ position => exact .log first hfirst (ih position)

/-! ## In force -/

/-- The first jump leads to a chain that holds one of the rule lists. -/
def InForce (known : List (List (List String))) (t : Rules) : Prop :=
  ∃ chain rules held, t.jumps.head? = some chain ∧ t.chains chain = some held ∧ rules ∈ known ∧
    Logged rules held

theorem InForce.mono {known' : List (List (List String))} (h : InForce known t)
    (hsub : known ⊆ known') : InForce known' t := by
  obtain ⟨chain, rules, held, hjump, hheld, hmem, hlogged⟩ := h
  exact ⟨chain, rules, held, hjump, hheld, hsub hmem, hlogged⟩

/-- The jumps and the live chain are as they were. -/
structure SameLive (t t' : Rules) : Prop where
  jumps : t'.jumps = t.jumps
  live : t'.chains .live = t.chains .live

theorem SameLive.set_staging (h : SameLive t t') (rules : Option (List (List String))) :
    SameLive t (t'.set .staging rules) :=
  ⟨h.jumps, (t'.set_of_ne (by decide) rules).trans h.live⟩

/-- With no jump to the staging chain the live chain is the one in force. -/
theorem InForce.of_sameLive (h : InForce known t) (hstaged : Chain.staging ∉ t.jumps)
    (hsame : SameLive t t') : InForce known t' := by
  obtain ⟨chain, rules, held, hjump, hheld, hmem, hlogged⟩ := h
  have hlive : chain = .live := by
    cases chain with
    | live => rfl
    | staging => exact absurd (List.mem_of_mem_head? hjump) hstaged
  subst hlive
  exact ⟨.live, rules, held, by rw [hsame.jumps]; exact hjump,
    by rw [hsame.live]; exact hheld, hmem,
    hlogged⟩

/-- The staging chain is complete, and the first jump leads there. -/
structure Staged (rules : List (List String)) (t : Rules) : Prop where
  jump : t.jumps.head? = some .staging
  built : ∃ held, t.chains .staging = some held ∧ Logged rules held

theorem Staged.inForce (h : Staged rules t) (hmem : rules ∈ known) : InForce known t := by
  obtain ⟨held, hheld, hlogged⟩ := h.built
  exact ⟨.staging, rules, held, h.jump, hheld, hmem, hlogged⟩

/-- The live chain is complete and all jumps lead there. -/
structure Installed (rules : List (List String)) (t : Rules) : Prop where
  inForce : InForce [rules] t
  unstaged : Chain.staging ∉ t.jumps

/-! ## Building the staging chain -/

section Build

variable {fails : Nat → Bool} {bin interface : String} {t t' : Rules}

theorem appends_meet (hsame : SameLive t t') {built : List (List String)}
    (hbuilt : t'.chains .staging = some built) (rest : List (List String)) :
    Meets fails (SameLive t)
      (fun result t' => SameLive t t' ∧
        (result = .ok () → t'.chains .staging = some (built ++ rest)))
      (mustAll bin interface (rest.map (.append .staging))) t' := by
  induction rest generalizing t' built with
  | nil => exact meets_pure ⟨hsame, fun _ => by rw [List.append_nil]; exact hbuilt⟩
  | cons rule rest ih =>
    have hmust : Meets fails (SameLive t)
        (fun result t' => SameLive t t' ∧
          (result = .ok () → t'.chains .staging = some (built ++ [rule])))
        (must bin interface (.append .staging rule)) t' := by
      refine meets_must hsame (fun next hexec => ?_) fun error => ⟨hsame, nofun⟩
      obtain ⟨held, hheld, rfl⟩ := Option.map_eq_some_iff.mp hexec
      cases hbuilt.symm.trans hheld
      exact ⟨hsame.set_staging _, fun _ => Rules.set_self _ _ _⟩
    refine hmust.bind fun result next h => ?_
    cases result with
    | error error => exact meets_pure ⟨h.1, nofun⟩
    | ok =>
      have hrest := ih h.1 (h.2 rfl)
      rw [List.append_assoc] at hrest
      exact hrest

theorem build_meets (hsame : SameLive t t') (rules : List (List String)) :
    Meets fails (SameLive t)
      (fun result t' => SameLive t t' ∧ (result = .ok () → t'.chains .staging = some rules))
      (mustAll bin interface (.newChain .staging :: rules.map (.append .staging))) t' := by
  have hmust : Meets fails (SameLive t)
      (fun result t' => SameLive t t' ∧ (result = .ok () → t'.chains .staging = some []))
      (must bin interface (.newChain .staging)) t' := by
    refine meets_must hsame (fun next hexec => ?_) fun error => ⟨hsame, nofun⟩
    rw [Rules.exec] at hexec
    split_ifs at hexec
    cases hexec
    exact ⟨hsame.set_staging _, fun _ => Rules.set_self _ _ _⟩
  refine hmust.bind fun result next h => ?_
  cases result with
  | error error => exact meets_pure ⟨h.1, nofun⟩
  | ok => exact appends_meet h.1 (h.2 rfl) rules

/-- The staging chain is complete. -/
def Built (rules : List (List String)) (t : Rules) : Prop :=
  ∃ held, t.chains .staging = some held ∧ Logged rules held

theorem logs_meet {rules : List (List String)}
    (h : SameLive t t' ∧ Built rules t') {inserts : List (Nat × List String)}
    (hlogs : ∀ insert ∈ inserts, ruleValue insert.2 "-j" = some "NFLOG") :
    Meets fails (SameLive t) (fun _ t' => SameLive t t' ∧ Built rules t')
      (bestEffort (inserts.map fun insert => Cmd.insert .staging insert.1 insert.2)) t' := by
  induction inserts generalizing t' with
  | nil => exact meets_pure h
  | cons insert inserts ih =>
    obtain ⟨hlog, hlogs⟩ := List.forall_mem_cons.mp hlogs
    have hask : Meets fails (SameLive t) (fun _ t' => SameLive t t' ∧ Built rules t')
        (Prog.ask (Cmd.insert .staging insert.1 insert.2)) t' := by
      refine meets_ask h.1 (fun next hexec => ?_) h
      obtain ⟨held, hheld, rfl⟩ := Option.map_eq_some_iff.mp hexec
      obtain ⟨built, hbuilt, hlogged⟩ := h.2
      cases hbuilt.symm.trans hheld
      exact ⟨h.1.set_staging _, _, Rules.set_self _ _ _, hlogged.insert hlog _⟩
    refine hask.bind fun ok next h => ?_
    cases ok with
    | true => exact ih h hlogs
    | false => exact meets_pure h

/-- Until the jump is made nothing about the live chain changes; then the new chain is in force. -/
theorem stage_meets (hsame : SameLive t t') (rules : List (List String)) :
    Meets fails (SameLive t)
      (fun result t' => match result with
        | .ok () => Staged rules t'
        | .error _ => SameLive t t')
      (stage bin interface rules) t' := by
  refine (build_meets hsame rules).bind fun result built h => ?_
  cases result with
  | error error => exact meets_pure h.1
  | ok =>
    have hbuilt : Built rules built := ⟨rules, h.2 rfl, .refl rules⟩
    refine (logs_meet ⟨h.1, hbuilt⟩ dropLogInserts_log).bind fun _ logged h => ?_
    refine meets_must h.1 (fun next hexec => ?_) fun _ => h.1
    obtain ⟨held, hheld, rfl⟩ := Option.map_eq_some_iff.mp hexec
    exact ⟨rfl, h.2⟩

end Build

/-! ## A call -/

section Call

variable {fails : Nat → Bool} {bin interface : String} {t : Rules} {rules : List (List String)}

/-- Removing the staging chain does not touch the live one while nothing jumps to staging. -/
theorem discard_staging_meets {t' : Rules}
    (hstaged : Chain.staging ∉ t.jumps) (hsame : SameLive t t') :
    Meets fails (SameLive t) (fun _ t' => SameLive t t') (discard .staging) t' := by
  refine meets_discard (fun command hmem t₁ t₂ h hexec => ?_) hsame
  simp only [List.mem_cons, List.not_mem_nil, or_false] at hmem
  rcases hmem with rfl | rfl | rfl
  · rw [Rules.exec, if_neg (by rw [h.jumps]; exact hstaged)] at hexec
    cases hexec
  · obtain ⟨held, -, rfl⟩ := Option.map_eq_some_iff.mp hexec
    exact h.set_staging _
  · rw [Rules.exec] at hexec
    split_ifs at hexec
    cases hexec
    exact h.set_staging _

/-- Removing the live chain leaves the staged one in force. -/
theorem discard_live_meets (h : Staged rules t) :
    Meets fails (Staged rules) (fun _ t => Staged rules t) (discard .live) t := by
  refine meets_discard (fun command hmem t₁ t₂ h hexec => ?_) h
  have hset : ∀ held, Staged rules (t₁.set .live held) := fun held =>
    ⟨h.jump, by rw [t₁.set_of_ne (by decide)]; exact h.built⟩
  simp only [List.mem_cons, List.not_mem_nil, or_false] at hmem
  rcases hmem with rfl | rfl | rfl
  · rw [Rules.exec] at hexec
    split_ifs at hexec
    cases hexec
    refine ⟨?_, h.built⟩
    -- the first jump is not one to the live chain
    obtain ⟨others, hjumps⟩ := List.head?_eq_some_iff.mp h.jump
    rw [hjumps]
    rfl
  · obtain ⟨held, -, rfl⟩ := Option.map_eq_some_iff.mp hexec
    exact hset _
  · rw [Rules.exec] at hexec
    split_ifs at hexec
    cases hexec
    exact hset _

theorem rename_installed {t' : Rules}
    (h : Staged rules t) (hexec : t.exec (.rename .staging .live) = some t') :
    Installed rules t' := by
  obtain ⟨held, hheld, rfl⟩ := Option.map_eq_some_iff.mp hexec
  obtain ⟨built, hbuilt, hlogged⟩ := h.built
  obtain rfl : built = held := Option.some.inj (hbuilt.symm.trans hheld)
  refine ⟨⟨.live, rules, built, ?_, by simp, List.mem_singleton_self rules,
    hlogged⟩, ?_⟩
  · obtain ⟨others, hjumps⟩ := List.head?_eq_some_iff.mp h.jump
    rw [hjumps]
    rfl
  · intro hmem
    obtain ⟨chain, -, hchain⟩ := List.mem_map.mp hmem
    split_ifs at hchain with hstaging
    exact hstaging hchain

/-- The end of a call: the new chain is in force throughout, and a call that returns Ok leaves it
under the live name. -/
theorem finish_meets (h : Staged rules t) :
    Meets fails (Staged rules)
      (fun result t => match result with
        | .ok () => Installed rules t
        | .error _ => Staged rules t)
      (do discard .live
          must bin interface (.rename .staging .live)) t := by
  refine (discard_live_meets h).bind fun _ t' h => ?_
  exact meets_must h (fun next hexec => rename_installed h hexec) fun _ => h

/-- A call that starts with a chain in force and no jump to staging has a chain in force at every
command, and leaves one in force. -/
theorem install_inForce {known : List (List (List String))} (hforce : InForce known t)
    (hstaged : Chain.staging ∉ t.jumps) (rules : List (List String)) :
    Meets fails (InForce (rules :: known)) (fun _ t' => InForce (rules :: known) t')
      (install bin interface rules) t := by
  have hlive : ∀ t', SameLive t t' → InForce (rules :: known) t' := fun t' hsame =>
    (hforce.of_sameLive hstaged hsame).mono (List.subset_cons_self rules known)
  have hnew : ∀ t', Staged rules t' → InForce (rules :: known) t' := fun t' h =>
    h.inForce List.mem_cons_self
  refine ((discard_staging_meets hstaged ⟨rfl, rfl⟩).mono hlive fun _ _ h => h).bind
    fun _ t₁ h₁ => ?_
  refine ((stage_meets h₁ rules).mono hlive fun _ _ h => h).bind fun result t₂ h₂ => ?_
  cases result with
  | error error =>
    refine ((discard_staging_meets hstaged h₂).mono hlive fun _ _ h => h).bind fun _ t₃ h₃ => ?_
    exact meets_pure (hlive t₃ h₃)
  | ok =>
    refine (finish_meets h₂).mono hnew fun result t₃ h₃ => ?_
    cases result with
    | error error => exact hnew t₃ h₃
    | ok => exact h₃.inForce.mono (List.cons_subset.mpr ⟨List.mem_cons_self, List.nil_subset _⟩)

/-- Whatever it starts from, a call that returns Ok leaves its rules in force. -/
theorem install_ok (t : Rules) (rules : List (List String)) :
    Meets fails (fun _ => True) (fun result t' => result = .ok () → Installed rules t')
      (install bin interface rules) t := by
  have hany : ∀ {chain : Chain} {t : Rules},
      Meets fails (fun _ => True) (fun _ _ => True) (discard chain) t :=
    meets_discard (fun _ _ _ _ _ _ => trivial) trivial
  refine hany.bind fun _ t₁ _ => ?_
  refine ((stage_meets ⟨rfl, rfl⟩ rules).mono (fun _ _ => trivial) fun _ _ h => h).bind
    fun result t₂ h₂ => ?_
  cases result with
  | error error => exact hany.bind fun _ _ _ => meets_pure nofun
  | ok =>
    refine (finish_meets h₂).mono (fun _ _ => trivial) fun result t₃ h₃ hok => ?_
    subst hok
    exact h₃

end Call

/-! ## Calls one after another -/

/-- A call: its rules, and which of its commands fail for an outside reason. -/
structure InstallCall where
  rules : List (List String)
  fails : Nat → Bool

/-- The tables, and whether some call has returned Ok. -/
structure Host where
  tables : Rules
  secured : Bool := false

namespace Host

variable (bin interface : String) {known : List (List (List String))} {call : InstallCall}
  {host : Host}

/-- What a call returns, and the tables it leaves. -/
def installs (host : Host) (call : InstallCall) : Except String Unit × Rules × Nat :=
  (install bin interface call.rules).exec (answer call.fails) (host.tables, 0)

/-- The tables at every command of a call, and those it leaves. -/
def commandStates (host : Host) (call : InstallCall) : List Rules :=
  ((install bin interface call.rules).calls (answer call.fails) (host.tables, 0)).map (·.1.1) ++
    [(host.installs bin interface call).2.1]

def step (host : Host) (call : InstallCall) : Host :=
  let (result, tables, _) := host.installs bin interface call
  { tables := tables, secured := host.secured || result.isOk }

/-- Once a call has returned Ok, none starts with a jump to the staging chain. -/
def StartsUnstaged (host : Host) (_ : InstallCall) : Prop :=
  host.secured → Chain.staging ∉ host.tables.jumps

instance (host : Host) (call : InstallCall) : Decidable (host.StartsUnstaged call) :=
  inferInstanceAs (Decidable (_ → _))

variable {bin interface}

theorem cons_subset_append : rules :: known ⊆ known ++ [rules] :=
  List.cons_subset.mpr ⟨List.mem_append_right _ List.mem_cons_self, List.subset_append_left _ _⟩

theorem commandStates_inForce (hforce : InForce known host.tables)
    (hstaged : Chain.staging ∉ host.tables.jumps) :
    ∀ t ∈ host.commandStates bin interface call, InForce (call.rules :: known) t := by
  obtain ⟨hthroughout, hend⟩ := install_inForce hforce hstaged call.rules 0
  intro t ht
  rcases List.mem_append.mp ht with hmade | hlast
  · obtain ⟨made, hmem, rfl⟩ := List.mem_map.mp hmade
    exact hthroughout made hmem
  · rw [List.mem_singleton.mp hlast]
    exact hend

theorem installs_ok (hok : (host.installs bin interface call).1 = .ok ()) :
    Installed call.rules (host.installs bin interface call).2.1 :=
  (install_ok host.tables call.rules 0).2 hok

/-- The chain in force holds the rules of one of the calls. -/
def Guarded (past : List InstallCall) (host : Host) : Prop :=
  host.secured → InForce (past.map InstallCall.rules) host.tables

theorem step_guarded {past : List InstallCall} (h : host.Guarded past)
    (hstarts : host.StartsUnstaged call) :
    (host.step bin interface call).Guarded (past ++ [call]) := by
  intro hsecured
  change (host.secured || (host.installs bin interface call).1.isOk) = true at hsecured
  rw [List.map_append]
  cases hbefore : host.secured with
  | true =>
    have hstates : ∀ t ∈ host.commandStates bin interface call, _ :=
      commandStates_inForce (h hbefore) (hstarts hbefore)
    have hlast := hstates _ (List.mem_append_right _ (List.mem_singleton_self _))
    exact hlast.mono cons_subset_append
  | false =>
    rw [hbefore] at hsecured
    have hok : (host.installs bin interface call).1 = .ok () := by
      cases hresult : (host.installs bin interface call).1 with
      | ok => rfl
      | error error =>
        rw [hresult] at hsecured
        cases hsecured
    exact (installs_ok hok).inForce.mono (List.subset_append_right _ _)

theorem run_guarded {start : Rules} {calls : List InstallCall}
    (h : Along (step bin interface) StartsUnstaged { tables := start } calls) :
    (run (step bin interface) { tables := start } calls).Guarded calls := by
  induction calls using List.reverseRecOn with
  | nil => exact nofun
  | append_singleton past call ih =>
    obtain ⟨hpast, hcall, -⟩ := along_append.mp h
    rw [run_snoc]
    exact step_guarded (ih hpast) hcall

end Host

/-- From any tables: in every sequence of calls of which none, once one has returned Ok, starts
with a jump to the staging chain, the first jump leads to a complete rule list of one of the calls
at every command of a call after the first Ok and when it ends, whatever it returns; and a call
that returns Ok leaves its own rules in force. -/
theorem filter_in_force (bin interface : String) (start : Rules) (calls : List InstallCall)
    (call : InstallCall)
    (hcalls : Along (Host.step bin interface) Host.StartsUnstaged { tables := start }
      (calls ++ [call])) :
    let host := run (Host.step bin interface) { tables := start } calls
    (host.secured → ∀ t ∈ host.commandStates bin interface call,
      InForce ((calls ++ [call]).map InstallCall.rules) t) ∧
    ((host.installs bin interface call).1 = .ok () →
      InForce [call.rules] (host.installs bin interface call).2.1) := by
  intro host
  obtain ⟨hpast, hcall, -⟩ := along_append.mp hcalls
  have hguarded : host.Guarded calls := Host.run_guarded hpast
  refine ⟨fun hsecured t ht => ?_, fun hok => (Host.installs_ok hok).inForce⟩
  rw [List.map_append]
  exact (Host.commandStates_inForce (hguarded hsecured) (hcall hsecured) t ht).mono
    Host.cons_subset_append

/-! A first call, then one whose second rule cannot be appended. -/

def acceptTcp : List String := ["-p", "tcp", "-j", "ACCEPT"]
def rejectRest : List String := ["-j", "REJECT"]

def firstCall : InstallCall := ⟨[rejectRest], fun _ => false⟩

theorem filter_in_force_append_fails :
    let host := Host.step "iptables" "blaktail0" { tables := {} } firstCall
    let call : InstallCall := ⟨[acceptTcp, rejectRest], fun n => n = 8⟩
    (host.installs "iptables" "blaktail0" call).1 =
        .error "iptables -A BLAKTAIL-FWD-NEW failed while installing the forward filter" ∧
      ∀ t ∈ host.commandStates "iptables" "blaktail0" call,
        InForce [[rejectRest], [acceptTcp, rejectRest]] t :=
  ⟨by decide +kernel, (filter_in_force "iptables" "blaktail0" {} [firstCall] _
    (by decide +kernel)).1
    (by decide +kernel)⟩

/-- The rename of the second call fails, so its chain stays in force under the staging name.  The
third call begins by removing the only jump. -/
theorem rename_fails_unfiltered :
    let second : InstallCall := ⟨[acceptTcp], fun n => n = 15⟩
    let third : InstallCall := ⟨[rejectRest], fun _ => false⟩
    let host := run (Host.step "iptables" "blaktail0") { tables := {} } [firstCall, second]
    host.secured ∧ host.tables.jumps = [.staging] ∧
      ∃ t ∈ host.commandStates "iptables" "blaktail0" third, t.jumps = [] := by
  decide +kernel

end BlakTail.Forwarding
