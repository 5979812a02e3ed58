import BlakTail.Firewall.Plan

/-!
# Installing the Inbound Filter

`apply_ingress` tears the filter down and, when the plan enforces, builds it up again: a chain,
a jump to it at the head of INPUT and the rules one by one, first for IPv4 and then for IPv6.
When a command of the building fails it tears the filter down once more and reports an error.
-/

namespace BlakTail.Firewall

open Foundation Foundation.Netfilter Control PacketTable

/-- The tables of one family; chain rules are the bodies of a plan's rules. -/
abbrev FamilyTable := PacketTable (List String) Connection

structure Tables where
  ipv4 : FamilyTable := {}
  ipv6 : FamilyTable := {}

/-- The table that decides about a source. -/
def Tables.of (t : Tables) (ipv6 : Bool) : FamilyTable := if ipv6 then t.ipv6 else t.ipv4

def Tables.accepts (t : Tables) (conn : Connection) : Bool :=
  (t.of conn.source.isIpv6).accepts ruleVerdict conn

/-! ## One call -/

/-- Which commands of a call fail for an outside reason: those of the first and of the second
clearing, and those of the building, by family and place. -/
structure Failures where
  clear : Bool → Nat → Bool
  install : Bool → Nat → Bool
  clearAgain : Bool → Nat → Bool

/-- `-D INPUT -i <interface> -j BLAKTAIL-ACL` four times, `-F` and `-X`. -/
def clearCommands : List (Command (List String)) :=
  List.replicate 4 .deleteJump ++ [.flush, .deleteChain]

def clearAclFilter (fails : Bool → Nat → Bool) (t : Tables) : Tables where
  ipv4 := t.ipv4.runAll (fails false) 0 clearCommands
  ipv6 := t.ipv6.runAll (fails true) 0 clearCommands

/-- `-C INPUT -i <interface> -j BLAKTAIL-ACL`, and when that fails `-I INPUT 1 ..`. -/
def ensureJump (fails : Nat → Bool) (t : FamilyTable) : FamilyTable × Bool :=
  match t.run (fails 2) .checkJump with
  | (t, true) => (t, true)
  | (t, false) => t.run (fails 3) .insertJump

/-- `bodies` are the rules without their `-A BLAKTAIL-ACL`. -/
def installAclChain (fails : Nat → Bool) (bodies : List (List String)) (t : FamilyTable) :
    FamilyTable × Bool :=
  let t := (t.run (fails 0) .newChain).1
  match t.run (fails 1) .flush with
  | (t, false) => (t, false)
  | (t, true) =>
    match ensureJump fails t with
    | (t, false) => (t, false)
    | (t, true) =>
      match t.runUntil fails 4 (bodies.map .append) with
      | (t, false) => (t, false)
      | (t, true) =>
        -- log copies are best effort
        let inserts := (dropLogInserts false 0 0 bodies).map fun insert =>
          Command.insert insert.1 insert.2
        ((t.runUntil fails (4 + bodies.length) inserts).1, true)

/-- The tables after a call, and whether it returned Ok. -/
def applyIngress (fails : Failures) (peers : List Peer) (t : Tables) : Tables × Bool :=
  let t := clearAclFilter fails.clear t
  let plan := planOverlayFilter peers
  if !plan.enforce then (t, true)
  else
    match installAclChain (fails.install false) (plan.bodies false) t.ipv4 with
    | (ipv4, false) => (clearAclFilter fails.clearAgain { t with ipv4 := ipv4 }, false)
    | (ipv4, true) =>
      match installAclChain (fails.install true) (plan.bodies true) t.ipv6 with
      | (ipv6, false) => (clearAclFilter fails.clearAgain { ipv4 := ipv4, ipv6 := ipv6 }, false)
      | (ipv6, true) => ({ ipv4 := ipv4, ipv6 := ipv6 }, true)

/-! ## A host -/

structure Call where
  peers : List Peer
  fails : Failures

def Call.plan (call : Call) : FilterPlan := planOverlayFilter call.peers

/-- The tables, and the plan of the last call that returned Ok. -/
structure Host where
  tables : Tables
  installed : FilterPlan := {}

def Host.step (h : Host) (call : Call) : Host :=
  let result := applyIngress call.fails call.peers h.tables
  { tables := result.1, installed := if result.2 then call.plan else h.installed }

/-! ## The jumps stay first -/

def Tables.JumpsFirst (t : Tables) : Prop := t.ipv4.JumpsFirst ∧ t.ipv6.JumpsFirst

theorem clearAclFilter_jumpsFirst {t : Tables} (ht : t.JumpsFirst) (fails : Bool → Nat → Bool) :
    (clearAclFilter fails t).JumpsFirst :=
  ⟨runAll_jumpsFirst ht.1 _ _ _, runAll_jumpsFirst ht.2 _ _ _⟩

variable {t t' : FamilyTable} {fails : Nat → Bool} {call : Call}

theorem ensureJump_jumpsFirst (ht : t.JumpsFirst) (fails : Nat → Bool) :
    (ensureJump fails t).1.JumpsFirst := by
  have hcheck := run_jumpsFirst ht (fails 2) .checkJump
  unfold ensureJump
  split
  · next heq => rwa [heq] at hcheck
  · next heq =>
    rw [heq] at hcheck
    exact run_jumpsFirst hcheck (fails 3) .insertJump

theorem installAclChain_jumpsFirst (ht : t.JumpsFirst) (fails : Nat → Bool)
    (bodies : List (List String)) : (installAclChain fails bodies t).1.JumpsFirst := by
  have hnew := run_jumpsFirst ht (fails 0) .newChain
  have hflush := run_jumpsFirst hnew (fails 1) .flush
  unfold installAclChain
  dsimp only
  split
  · next hrun => rwa [hrun] at hflush
  · next hrun =>
    rw [hrun] at hflush
    have hjump := ensureJump_jumpsFirst hflush fails
    split
    · next hrun => rwa [hrun] at hjump
    · next hrun =>
      rw [hrun] at hjump
      have happend := runUntil_jumpsFirst hjump fails 4 (bodies.map .append)
      split
      · next hrun => rwa [hrun] at happend
      · next hrun =>
        rw [hrun] at happend
        exact runUntil_jumpsFirst happend fails _ _

theorem applyIngress_jumpsFirst {t : Tables} (ht : t.JumpsFirst) (fails : Failures)
    (peers : List Peer) : (applyIngress fails peers t).1.JumpsFirst := by
  obtain ⟨hv4, hv6⟩ := clearAclFilter_jumpsFirst ht fails.clear
  have hinstall4 := installAclChain_jumpsFirst hv4 (fails.install false)
    ((planOverlayFilter peers).bodies false)
  have hinstall6 := installAclChain_jumpsFirst hv6 (fails.install true)
    ((planOverlayFilter peers).bodies true)
  unfold applyIngress
  dsimp only
  split_ifs
  · exact ⟨hv4, hv6⟩
  · split
    · next hrun =>
      rw [hrun] at hinstall4
      apply clearAclFilter_jumpsFirst
      exact ⟨hinstall4, hv6⟩
    · next hrun =>
      rw [hrun] at hinstall4
      split
      · next hrun =>
        rw [hrun] at hinstall6
        apply clearAclFilter_jumpsFirst
        exact ⟨hinstall4, hinstall6⟩
      · next hrun =>
        rw [hrun] at hinstall6
        exact ⟨hinstall4, hinstall6⟩

/-! ## What a successful call leaves -/

theorem flush_ok {fails : Bool} (hrun : t.run fails .flush = (t', true)) : t'.chain = some [] := by
  rcases t.run_cases fails .flush with hfail | ⟨next, hexec, hok⟩
  · rw [hfail] at hrun
    cases hrun
  · obtain ⟨rules, -, rfl⟩ := Option.map_eq_some_iff.mp hexec
    rw [hok] at hrun
    rw [← (Prod.mk.inj hrun).1]

theorem ensureJump_ok (hrun : ensureJump fails t = (t', true)) :
    t'.chain = t.chain ∧ t'.hasJump := by
  unfold ensureJump at hrun
  rcases t.run_cases (fails 2) .checkJump with hfail | ⟨next, hexec, hok⟩
  · rw [hfail] at hrun
    rcases t.run_cases (fails 3) .insertJump with hfail | ⟨next, hexec, hok⟩
    · simp only [hfail] at hrun
      cases hrun
    · obtain ⟨rules, -, rfl⟩ := Option.map_eq_some_iff.mp hexec
      simp only [hok] at hrun
      rw [← (Prod.mk.inj hrun).1]
      exact ⟨rfl, rfl⟩
  · rw [hok] at hrun
    rw [exec] at hexec
    split_ifs at hexec with hjump
    cases hexec
    rw [← (Prod.mk.inj hrun).1]
    exact ⟨rfl, hjump⟩

/-- A chain that was built jumps in and decides as its rules do. -/
theorem installAclChain_ok {bodies : List (List String)}
    (hrun : installAclChain fails bodies t = (t', true)) :
    t'.hasJump ∧
      walk ruleVerdict (t'.chain.getD []) = walk ruleVerdict bodies := by
  unfold installAclChain at hrun
  dsimp only at hrun
  split at hrun
  · cases hrun
  · next t1 hflush =>
    split at hrun
    · cases hrun
    · next t2 hjump =>
      obtain ⟨hchain, hhas⟩ := ensureJump_ok hjump
      rw [flush_ok hflush] at hchain
      split at hrun
      · cases hrun
      · next t3 happend =>
        obtain rfl := runUntil_append hchain happend
        obtain rfl := (Prod.mk.inj hrun).1
        obtain ⟨hinput, hwalk⟩ := runUntil_insert
          (fun insert hmem => ruleVerdict_log (dropLogInserts_log insert hmem)) fails
            (4 + bodies.length) { t2 with chain := some ([] ++ bodies) }
        refine ⟨?_, hwalk⟩
        rw [hasJump, hinput]
        exact hhas

/-- A call that returns Ok with an enforcing plan leaves tables that accept what the plan
accepts. -/
theorem applyIngress_ok {fails : Failures} {peers : List Peer} {t t' : Tables} (ht : t.JumpsFirst)
    (henforce : (planOverlayFilter peers).enforce)
    (hrun : applyIngress fails peers t = (t', true)) (conn : Connection) :
    t'.accepts conn = (planOverlayFilter peers).accepts conn := by
  have hfirst := applyIngress_jumpsFirst ht fails peers
  rw [hrun] at hfirst
  -- in both families the chain is built and jumped to
  have hbuilt : ∀ ipv6, (t'.of ipv6).JumpsFirst ∧ (t'.of ipv6).hasJump ∧
      walk ruleVerdict ((t'.of ipv6).chain.getD []) =
        walk ruleVerdict ((planOverlayFilter peers).bodies ipv6) := by
    unfold applyIngress at hrun
    dsimp only at hrun
    rw [henforce, Bool.not_true, if_neg Bool.false_ne_true] at hrun
    split at hrun
    · cases hrun
    · next hinstall4 =>
      split at hrun
      · cases hrun
      · next hinstall6 =>
        obtain rfl := (Prod.mk.inj hrun).1
        intro ipv6
        cases ipv6 with
        | false => exact ⟨hfirst.1, installAclChain_ok hinstall4⟩
        | true => exact ⟨hfirst.2, installAclChain_ok hinstall6⟩
  obtain ⟨hjumps, hhas, hwalk⟩ := hbuilt conn.source.isIpv6
  obtain ⟨decision, hdecision⟩ := walk_plan henforce conn.source.isIpv6 conn
  have haccepts := accepts_of_jump hjumps hhas ((congrFun hwalk conn).trans hdecision)
  unfold Tables.accepts FilterPlan.accepts
  rw [haccepts, henforce, hdecision]
  rfl

/-! ## The condition -/

/-- No command of the building but the check and the log copies is made to fail. -/
def Call.Installs (call : Call) : Prop :=
  ∀ ipv6 n, n < 4 + (call.plan.bodies ipv6).length → n ≠ 2 → call.fails.install ipv6 n = false

/-- Nothing of the call takes effect: no clearing command does, and the chain cannot be
flushed. -/
def Call.Idle (call : Call) : Prop :=
  (∀ ipv6 n, call.fails.clear ipv6 n) ∧ (∀ ipv6 n, call.fails.clearAgain ipv6 n) ∧
    call.fails.install false 1

theorem newChain_some : (t.run false .newChain).1.chain.isSome := by
  cases hchain : t.chain with
  | none | some rules => simp [PacketTable.run, exec, hchain]

theorem flush_succeeds (hchain : t.chain.isSome) :
    ∃ t', t.run false .flush = (t', true) := by
  obtain ⟨rules, hrules⟩ := Option.isSome_iff_exists.mp hchain
  exact ⟨_, by rw [PacketTable.run, exec, hrules]; rfl⟩

theorem ensureJump_succeeds (hfails : fails 3 = false) (hchain : t.chain.isSome) :
    ∃ t', ensureJump fails t = (t', true) := by
  obtain ⟨rules, hrules⟩ := Option.isSome_iff_exists.mp hchain
  unfold ensureJump
  rcases t.run_cases (fails 2) .checkJump with hfail | ⟨next, -, hok⟩
  · refine ⟨{ t with input := .jump :: t.input }, ?_⟩
    rw [hfail]
    simp [hfails, PacketTable.run, exec, hrules]
  · rw [hok]
    exact ⟨next, rfl⟩

theorem installAclChain_installs {bodies : List (List String)}
    (hfails : ∀ n < 4 + bodies.length, n ≠ 2 → fails n = false)
    (t : FamilyTable) : (installAclChain fails bodies t).2 := by
  unfold installAclChain
  rw [hfails 0 (by omega) (by decide), hfails 1 (by omega) (by decide)]
  obtain ⟨t1, hflush⟩ := flush_succeeds (newChain_some (t := t))
  have hempty := flush_ok hflush
  obtain ⟨t2, hjump⟩ := ensureJump_succeeds (hfails 3 (by omega) (by decide))
    (Option.isSome_of_eq_some hempty)
  have hchain := (ensureJump_ok hjump).1.trans hempty
  have happend : (t2.runUntil fails 4 (bodies.map .append)).2 :=
    runUntil_append_ok bodies hchain fun k hk => hfails (4 + k) (by omega) (by omega)
  simp only [hflush, hjump]
  split
  · next hrun =>
    rw [hrun] at happend
    exact happend
  · rfl

theorem applyIngress_installs (hinstalls : call.Installs) (t : Tables) :
    (applyIngress call.fails call.peers t).2 := by
  have hinstall := fun ipv6 => installAclChain_installs (hinstalls ipv6)
  unfold applyIngress
  dsimp only
  split_ifs
  · rfl
  · split
    · next hrun =>
      have hok := hinstall false (clearAclFilter call.fails.clear t).ipv4
      rw [Call.plan, hrun] at hok
      cases hok
    · split
      · next hrun =>
        have hok := hinstall true (clearAclFilter call.fails.clear t).ipv6
        rw [Call.plan, hrun] at hok
        cases hok
      · rfl

theorem clearAclFilter_of_fails {fails : Bool → Nat → Bool} (hfails : ∀ ipv6 n, fails ipv6 n)
    (t : Tables) : clearAclFilter fails t = t := by
  unfold clearAclFilter
  rw [runAll_of_fails (hfails false), runAll_of_fails (hfails true)]

theorem newChain_accepts (t : FamilyTable) (fails : Bool) (conn : Connection) :
    (t.run fails .newChain).1.accepts ruleVerdict conn = t.accepts ruleVerdict conn := by
  rcases t.run_cases fails .newChain with hfail | ⟨next, hexec, hok⟩
  · rw [hfail]
  · rw [hok]
    rw [exec] at hexec
    split_ifs at hexec with hnone
    cases hexec
    -- a missing chain and an empty one decide nothing alike
    have hverdict : entryVerdict ruleVerdict { t with chain := some [] } conn =
        t.entryVerdict ruleVerdict conn := by
      funext entry
      cases entry with
      | jump => simp [entryVerdict, Option.isNone_iff_eq_none.mp hnone]
      | foreign decision => rfl
    unfold accepts
    rw [hverdict]

/-- An idle call at most creates an empty chain. -/
theorem applyIngress_idle (hidle : call.Idle) (henforce : call.plan.enforce) (t : Tables) :
    (applyIngress call.fails call.peers t).2 = false ∧
      ∀ conn, (applyIngress call.fails call.peers t).1.accepts conn = t.accepts conn := by
  obtain ⟨hclear, hagain, hflush⟩ := hidle
  have hinstall : installAclChain (call.fails.install false) (call.plan.bodies false) t.ipv4 =
      ((t.ipv4.run (call.fails.install false 0) .newChain).1, false) := by
    unfold installAclChain
    rw [hflush]
    rfl
  have hcall : applyIngress call.fails call.peers t =
      ({ t with ipv4 := (t.ipv4.run (call.fails.install false 0) .newChain).1 }, false) := by
    unfold applyIngress
    rw [clearAclFilter_of_fails hclear]
    rw [Call.plan] at henforce hinstall
    simp only [henforce, hinstall, Bool.not_true, Bool.false_eq_true, if_false,
      clearAclFilter_of_fails hagain]
  rw [hcall]
  refine ⟨rfl, fun conn => ?_⟩
  unfold Tables.accepts Tables.of
  split_ifs
  · rfl
  · exact newChain_accepts _ _ _

/-! ## Failing closed -/

/-- A call that does not enforce may fail as it likes; one that enforces is built without
failures or takes no effect. -/
def Call.Safe (call : Call) : Prop := call.plan.enforce → call.Installs ∨ call.Idle

/-- The tables let in only what the installed plan accepts. -/
structure Host.Guarded (h : Host) : Prop where
  jumps : h.tables.JumpsFirst
  accepts : ∀ conn, h.tables.accepts conn → h.installed.accepts conn

/-- A call that returns Ok guards the host, whatever went before. -/
theorem step_ok_guarded {h : Host} (hjumps : h.tables.JumpsFirst)
    (hok : (applyIngress call.fails call.peers h.tables).2) : (h.step call).Guarded := by
  have hinstalled : (h.step call).installed = call.plan := by simp [Host.step, hok]
  refine ⟨applyIngress_jumpsFirst hjumps _ _, fun conn haccepts => ?_⟩
  rw [hinstalled]
  cases henforce : call.plan.enforce with
  | false => simp [FilterPlan.accepts, henforce]
  | true =>
    have htables := applyIngress_ok hjumps henforce (Prod.ext rfl hok) conn
    exact htables.symm.trans haccepts

theorem step_guarded (h : Host) (call : Call) (hsafe : call.Safe) (hguarded : h.Guarded) :
    (h.step call).Guarded := by
  cases henforce : call.plan.enforce with
  | false =>
    apply step_ok_guarded hguarded.jumps
    rw [Call.plan] at henforce
    simp [applyIngress, henforce]
  | true =>
    rcases hsafe henforce with hinstalls | hidle
    · exact step_ok_guarded hguarded.jumps (applyIngress_installs hinstalls _)
    · obtain ⟨hfailed, htables⟩ := applyIngress_idle hidle henforce h.tables
      have hinstalled : (h.step call).installed = h.installed := by simp [Host.step, hfailed]
      refine ⟨applyIngress_jumpsFirst hguarded.jumps _ _, fun conn haccepts => ?_⟩
      rw [hinstalled]
      exact hguarded.accepts conn ((htables conn).symm.trans haccepts)

/-- After a first successful call and any number of safe calls, the tables let in only
connections that the plan last installed accepts: the plan of the last call when it returned Ok,
and otherwise the plan that was in force before it. -/
theorem Host.fails_closed (h : Host) (hjumps : h.tables.JumpsFirst) (first : Call)
    (hok : (applyIngress first.fails first.peers h.tables).2) (calls : List Call)
    (hcalls : ∀ call ∈ calls, call.Safe) (conn : Connection)
    (haccepts : (run Host.step h (first :: calls)).tables.accepts conn) :
    (run Host.step h (first :: calls)).installed.accepts conn := by
  have hguarded : (run Host.step (h.step first) calls).Guarded :=
    run_invariant_all step_guarded hcalls (step_ok_guarded hjumps hok)
  exact hguarded.accepts conn haccepts

/-- A peer that may use the web server here. -/
def officePeer : Peer where
  id := 2
  wgPublicKey := "office"
  allowedIps := ["100.64.0.2/32"]
  ingress := some { tcp := ["443"] }

def noFailures : Failures where
  clear _ _ := false
  install _ _ := false
  clearAgain _ _ := false

/-- A host that nothing was installed on. -/
def newHost : Host := { tables := {} }

/-- The office reaches the web server while the filter is installed, and still does after an
update none of whose commands took effect. -/
theorem fails_closed_idle_update :
    let first : Call := ⟨[officePeer], noFailures⟩
    let idle : Call := ⟨[officePeer], ⟨fun _ _ => true, fun _ _ => true, fun _ _ => true⟩⟩
    let conn : Connection := ⟨.v4 0x64400002#32, 6, 443⟩
    (run Host.step newHost [first, idle]).tables.accepts conn ∧
      (run Host.step newHost [first, idle]).installed.accepts conn := by
  intro first idle conn
  have haccepts : (run Host.step newHost [first, idle]).tables.accepts conn := by
    decide +kernel
  refine ⟨haccepts, Host.fails_closed newHost ⟨⟨0, [], rfl, by simp⟩, ⟨0, [], rfl, by simp⟩⟩ first
    (by decide +kernel) [idle] ?_ conn haccepts⟩
  intro call hcall henforce
  cases List.mem_singleton.mp hcall
  exact .inr ⟨fun _ _ => rfl, fun _ _ => rfl, rfl⟩

/-- An update whose first append for IPv4 fails returns an error and leaves the interface open:
a stranger gets in that neither the installed plan nor that of the update accepts. -/
theorem failed_update_opens :
    let first : Call := ⟨[officePeer], noFailures⟩
    let update : Call := ⟨[officePeer],
      { noFailures with install := fun ipv6 n => !ipv6 && n == 4 }⟩
    let stranger : Connection := ⟨.v4 0x64400009#32, 6, 22⟩
    let host := newHost.step first
    first.plan.enforce ∧ (applyIngress first.fails first.peers newHost.tables).2 ∧
      host.tables.accepts stranger = false ∧ update.plan.enforce ∧
      (applyIngress update.fails update.peers host.tables).2 = false ∧
      (host.step update).tables.accepts stranger ∧
      (host.step update).installed.accepts stranger = false ∧
      update.plan.accepts stranger = false := by
  decide +kernel

end BlakTail.Firewall
