import BlakTail.Foundation.Metered
import BlakTail.Foundation.Table
import BlakTail.Relay.Ladder

/-!
# The Relay's Rate Limits

Token buckets, one for each source address and one for each node, that are forgotten when they are
idle.  Token counts are exact.
-/

namespace BlakTail.Relay

open Foundation

def DEFAULT_IDLE_SECS : Nat := 120
def DEFAULT_RATE_PER_SEC : Nat := 100
def DEFAULT_RATE_BURST : Nat := 200
def MAX_RATE_BUCKETS : Nat := 65536
def SOURCE_RATE_MULTIPLIER : Nat := 10

/-! ## Configuration -/

structure Limits where
  idleSecs : Nat := DEFAULT_IDLE_SECS
  ratePerSec : Nat := DEFAULT_RATE_PER_SEC
  rateBurst : Nat := DEFAULT_RATE_BURST
  deriving DecidableEq

structure Violation where
  field : String
  message : String
  deriving DecidableEq

/-- What `validate_relay` reports; `others` is what its checks of the region, the addresses and the
secrets find. -/
def validateRelay (others : List Violation) (config : Limits) : List Violation :=
  others ++
  (if 10 ≤ config.idleSecs ∧ config.idleSecs ≤ 86400 then []
    else [⟨"relay.idle_seconds", "must be between 10 and 86400"⟩]) ++
  (if 1 ≤ config.ratePerSec ∧ config.ratePerSec ≤ 100000 then []
    else [⟨"relay.rate_per_second", "must be between 1 and 100000"⟩]) ++
  (if config.rateBurst < config.ratePerSec ∨ 1000000 < config.rateBurst then
    [⟨"relay.rate_burst", "must be at least rate_per_second and no more than 1000000"⟩] else [])

-- The defaults are limits an operator may configure.
example : validateRelay [] {} = [] := by decide

/-! ## Buckets -/

structure Bucket where
  tokens : ℚ
  lastRefill : Nat
  deriving DecidableEq

/-- `as_secs_f64`. -/
def asSecs (span : Nat) : ℚ := span / secs 1

variable {κ : Type} [DecidableEq κ] {ratePerSec rateBurst now : Nat}

/-- The tokens of a bucket at some time; one that does not exist is made full. -/
def level (ratePerSec rateBurst : Nat) (bucket : Option Bucket) (now : Nat) : ℚ :=
  let bucket := bucket.getD ⟨rateBurst, now⟩
  min (bucket.tokens + asSecs (now - bucket.lastRefill) * ratePerSec) rateBurst

/-- Token-bucket admission, `admit` in the source. -/
def admitKey (buckets : Table κ Bucket) (key : κ) (ratePerSec rateBurst now : Nat) :
    Table κ Bucket × Bool :=
  if MAX_RATE_BUCKETS ≤ buckets.size ∧ key ∉ buckets then (buckets, false)
  else
    let tokens := level ratePerSec rateBurst (buckets.lookup key) now
    if 1 ≤ tokens then (buckets.insert key ⟨tokens - 1, now⟩, true)
    else (buckets.insert key ⟨tokens, now⟩, false)

/-- How long the reaper keeps an idle bucket. -/
def bucketIdle (idleSecs : Nat) : Nat := secs (max idleSecs 60)

/-- The reaper's part for one table of buckets. -/
def reapBuckets (buckets : Table κ Bucket) (idleSecs now : Nat) : Table κ Bucket :=
  buckets.retain fun _ bucket => now - bucket.lastRefill < bucketIdle idleSecs

/-! ## Calls -/

inductive LimiterCall (κ : Type) where
  | datagram (key : κ) (time : Nat)
  | reap (time : Nat)

def LimiterCall.time : LimiterCall κ → Nat
  | .datagram _ time => time
  | .reap time => time

def limiterStep (config : Limits) (buckets : Table κ Bucket) : LimiterCall κ → Table κ Bucket
  | .datagram key time => (admitKey buckets key config.ratePerSec config.rateBurst time).1
  | .reap time => reapBuckets buckets config.idleSecs time

/-- One if the call admits a datagram for `key`. -/
def admits (config : Limits) (key : κ) (buckets : Table κ Bucket) : LimiterCall κ → Nat
  | .datagram key' time =>
    if key' = key ∧ (admitKey buckets key config.ratePerSec config.rateBurst time).2 = true then 1
    else 0
  | .reap _ => 0

/-- The datagrams of `key` that a limiter starting without buckets admits in a window. -/
def admittedWithin (config : Limits) (key : κ) (start stop : Nat) (calls : List (LimiterCall κ)) :
    Nat :=
  spent (limiterStep config) LimiterCall.time (admits config key) start stop ∅ calls

/-! ## The level of a bucket -/

theorem asSecs_add (m n : Nat) : asSecs (m + n) = asSecs m + asSecs n := by
  simp only [asSecs, Nat.cast_add, add_div]

theorem asSecs_nonneg (n : Nat) : 0 ≤ asSecs n := by
  unfold asSecs
  positivity

theorem asSecs_mono {m n : Nat} (h : m ≤ n) : asSecs m ≤ asSecs n := by
  obtain ⟨k, rfl⟩ := Nat.exists_eq_add_of_le h
  rw [asSecs_add]
  exact le_add_of_nonneg_right (asSecs_nonneg k)

theorem asSecs_secs (n : Nat) : asSecs (secs n) = n := by
  unfold asSecs secs
  push_cast
  ring

theorem level_le (bucket : Option Bucket) : level ratePerSec rateBurst bucket now ≤ rateBurst :=
  min_le_right _ _

theorem level_nonneg {bucket : Option Bucket} (h : ∀ b ∈ bucket, 0 ≤ b.tokens) :
    0 ≤ level ratePerSec rateBurst bucket now := by
  have hrefill : ∀ span, 0 ≤ asSecs span * (ratePerSec : ℚ) :=
    fun span => mul_nonneg (asSecs_nonneg span) (Nat.cast_nonneg ratePerSec)
  refine le_min (add_nonneg ?_ (hrefill _)) (Nat.cast_nonneg rateBurst)
  cases bucket with
  | none => exact Nat.cast_nonneg rateBurst
  | some b => exact h b rfl

/-- A bucket that does not exist counts as full. -/
theorem level_none : level ratePerSec rateBurst none now = rateBurst := by
  simp only [level, Option.getD_none, Nat.sub_self, asSecs, Nat.cast_zero, zero_div, zero_mul,
    add_zero, min_self]

/-- A bucket that was written at the same time is as it was written. -/
theorem level_written {tokens : ℚ} (h : tokens ≤ rateBurst) :
    level ratePerSec rateBurst (some ⟨tokens, now⟩) now = tokens := by
  simp only [level, Option.getD_some, Nat.sub_self, asSecs, Nat.cast_zero, zero_div, zero_mul,
    add_zero, min_eq_left h]

theorem level_refills (bucket : Option Bucket) {t t' : Nat} (ht : t ≤ t') :
    level ratePerSec rateBurst bucket t' ≤
      level ratePerSec rateBurst bucket t + asSecs (t' - t) * ratePerSec := by
  have hrate : (0 : ℚ) ≤ ratePerSec := Nat.cast_nonneg ratePerSec
  have hgain : 0 ≤ asSecs (t' - t) * (ratePerSec : ℚ) := mul_nonneg (asSecs_nonneg _) hrate
  cases bucket with
  | none =>
    rw [level_none, level_none]
    exact le_add_of_nonneg_right hgain
  | some b =>
    have hspan : asSecs (t' - b.lastRefill) ≤ asSecs (t - b.lastRefill) + asSecs (t' - t) := by
      rw [← asSecs_add]
      exact asSecs_mono (by omega)
    have hgrown := mul_le_mul_of_nonneg_right hspan hrate
    simp only [level, Option.getD_some]
    rw [← min_add_add_right]
    apply min_le_min
    · linarith
    · exact le_add_of_nonneg_right hgain

/-- A bucket left alone for as long as its burst takes to refill is full. -/
theorem level_idle {b : Bucket} (htokens : 0 ≤ b.tokens) {idle : Nat}
    (hidle : idle ≤ now - b.lastRefill) (hfull : (rateBurst : ℚ) ≤ asSecs idle * ratePerSec) :
    level ratePerSec rateBurst (some b) now = rateBurst := by
  have hrate : (0 : ℚ) ≤ ratePerSec := Nat.cast_nonneg ratePerSec
  have hspan := mul_le_mul_of_nonneg_right (asSecs_mono hidle) hrate
  simp only [level, Option.getD_some]
  apply min_eq_right
  linarith

/-! ## What a call does to the level -/

section Metered

def levelOf (config : Limits) (key : κ) (buckets : Table κ Bucket) (now : Nat) : ℚ :=
  level config.ratePerSec config.rateBurst (buckets.lookup key) now

def Covered (key : κ) (buckets : Table κ Bucket) : Prop :=
  ∀ b ∈ buckets.lookup key, 0 ≤ b.tokens

/-- What admission writes: nothing, or a bucket refilled and, for a datagram it admits, one less. -/
theorem admit_eq (buckets : Table κ Bucket) (key : κ) (ratePerSec rateBurst now : Nat) :
    let tokens := level ratePerSec rateBurst (buckets.lookup key) now
    admitKey buckets key ratePerSec rateBurst now = (buckets, false) ∨
      1 ≤ tokens ∧
        admitKey buckets key ratePerSec rateBurst now =
          (buckets.insert key ⟨tokens - 1, now⟩, true) ∨
      tokens < 1 ∧
        admitKey buckets key ratePerSec rateBurst now =
          (buckets.insert key ⟨tokens, now⟩, false) := by
  intro tokens
  unfold admitKey
  split
  · exact .inl rfl
  · dsimp only
    split
    · next hone => exact .inr (.inl ⟨hone, rfl⟩)
    · next hone => exact .inr (.inr ⟨not_le.mp hone, rfl⟩)

theorem lookup_admit_ne {key : κ} {buckets : Table κ Bucket}
    {key' : κ} (hne : key ≠ key') (ratePerSec rateBurst now : Nat) :
    (admitKey buckets key' ratePerSec rateBurst now).1.lookup key = buckets.lookup key := by
  rcases admit_eq buckets key' ratePerSec rateBurst now with heq | ⟨-, heq⟩ | ⟨-, heq⟩
  · rw [heq]
  · rw [heq, Table.lookup_insert_if, if_neg hne]
  · rw [heq, Table.lookup_insert_if, if_neg hne]

theorem lookup_reap (buckets : Table κ Bucket) (key : κ) (idleSecs now : Nat) :
    (reapBuckets buckets idleSecs now).lookup key = buckets.lookup key ∨
      (reapBuckets buckets idleSecs now).lookup key = none ∧
        ∀ b ∈ buckets.lookup key, bucketIdle idleSecs ≤ now - b.lastRefill := by
  cases hreaped : (reapBuckets buckets idleSecs now).lookup key with
  | some b => exact .inl (Table.lookup_retain_eq_some.mp hreaped).1.symm
  | none =>
    refine .inr ⟨rfl, fun b hb => ?_⟩
    by_contra hyoung
    have hkept : (reapBuckets buckets idleSecs now).lookup key = some b :=
      Table.lookup_retain_eq_some.mpr ⟨hb, decide_eq_true (not_le.mp hyoung)⟩
    rw [hreaped] at hkept
    cases hkept

/-- Every call keeps the tokens from going below zero. -/
theorem limiterStep_covered {config : Limits} {key : κ} {buckets : Table κ Bucket}
    (h : Covered key buckets) (call : LimiterCall κ) :
    Covered key (limiterStep config buckets call) := by
  cases call with
  | reap time =>
    intro b hb
    exact h b (Table.lookup_retain_eq_some.mp hb).1
  | datagram key' time =>
    intro b hb
    change b ∈ (admitKey buckets key' config.ratePerSec config.rateBurst time).1.lookup key at hb
    by_cases hkey : key = key'
    · subst hkey
      have hlevel : 0 ≤ level config.ratePerSec config.rateBurst (buckets.lookup key) time :=
        level_nonneg h
      rcases admit_eq buckets key config.ratePerSec config.rateBurst time with
        heq | ⟨hone, heq⟩ | ⟨-, heq⟩
      · rw [heq] at hb
        exact h b hb
      · rw [heq, Table.lookup_insert_if, if_pos rfl] at hb
        cases hb
        exact sub_nonneg.mpr hone
      · rw [heq, Table.lookup_insert_if, if_pos rfl] at hb
        cases hb
        exact hlevel
    · rw [lookup_admit_ne hkey] at hb
      exact h b hb

/-- A datagram that is admitted is paid from the level. -/
theorem admit_pays (buckets : Table κ Bucket) (key : κ) (config : Limits) (time : Nat) :
    (admits config key buckets (.datagram key time) : ℚ) +
        levelOf config key (limiterStep config buckets (.datagram key time)) time =
      levelOf config key buckets time := by
  have hle : level config.ratePerSec config.rateBurst (buckets.lookup key) time ≤
      config.rateBurst := level_le _
  rw [admits, limiterStep, levelOf, levelOf]
  rcases admit_eq buckets key config.ratePerSec config.rateBurst time with
    heq | ⟨-, heq⟩ | ⟨-, heq⟩
  · rw [heq, if_neg (fun h => Bool.false_ne_true h.2), Nat.cast_zero, zero_add]
  · rw [heq, if_pos ⟨rfl, rfl⟩, Table.lookup_insert_if, if_pos rfl,
      level_written (by linarith), Nat.cast_one, add_sub_cancel]
  · rw [heq, if_neg (fun h => Bool.false_ne_true h.2), Table.lookup_insert_if, if_pos rfl,
      level_written hle, Nat.cast_zero, zero_add]

/-- Where an idle bucket is full again before the reaper may forget it, the limiter is metered. -/
theorem limiter_meter (config : Limits) (key : κ)
    (hfull : config.rateBurst ≤ config.ratePerSec * max config.idleSecs 60) :
    Meter (limiterStep config) LimiterCall.time (admits config key) (Covered key)
      (levelOf config key) (config.ratePerSec / secs 1) config.rateBurst where
  rate_nonneg := by positivity
  keeps _ call h := limiterStep_covered h call
  nonneg _ _ h := level_nonneg h
  capped _ _ _ := level_le _
  refills buckets t t' _ ht := by
    have hrefills : levelOf config key buckets t' ≤
        levelOf config key buckets t + asSecs (t' - t) * config.ratePerSec :=
      level_refills (buckets.lookup key) ht
    rw [asSecs, Nat.cast_sub ht] at hrefills
    calc levelOf config key buckets t' ≤ _ := hrefills
      _ = levelOf config key buckets t + config.ratePerSec / secs 1 * (t' - t) := by ring
  pays buckets call h := by
    cases call with
    | datagram key' time =>
      by_cases hkey : key' = key
      · subst hkey
        exact le_of_eq (admit_pays buckets key' config time)
      · rw [admits, if_neg (fun h => hkey h.1), Nat.cast_zero, zero_add, levelOf, limiterStep,
          lookup_admit_ne (Ne.symm hkey), levelOf]
    | reap time =>
      rw [admits, Nat.cast_zero, zero_add, levelOf, levelOf, limiterStep]
      rcases lookup_reap buckets key config.idleSecs time with heq | ⟨hgone, hidle⟩
      · rw [heq]
      · rw [hgone, level_none]
        cases hbucket : buckets.lookup key with
        | none => rw [level_none]
        | some b =>
          refine le_of_eq (level_idle (h b hbucket) (hidle b hbucket) ?_).symm
          rw [bucketIdle, asSecs_secs]
          exact_mod_cast (Nat.mul_comm _ _).trans_ge hfull

end Metered

/-! ## Two bursts -/

section Bursts

abbrev only (key : κ) (tokens : ℚ) (lastRefill : Nat) : Table κ Bucket :=
  AList.singleton key ⟨tokens, lastRefill⟩

theorem admit_only {key : κ} {tokens : ℚ} (hone : 1 ≤ tokens) (hburst : tokens ≤ rateBurst) :
    admitKey (only key tokens now) key ratePerSec rateBurst now =
      (only key (tokens - 1) now, true) := by
  have hlookup : (only key tokens now).lookup key = some ⟨tokens, now⟩ := by
    rw [only, ← AList.insert_empty, AList.lookup_insert]
  have hmem : key ∈ only key tokens now := AList.lookup_isSome.mp (by rw [hlookup]; rfl)
  rw [admitKey, if_neg (fun h => h.2 hmem)]
  rw [hlookup, level_written hburst, if_pos hone, AList.insert_singleton_eq]

theorem admit_empty {key : κ} (hone : 1 ≤ rateBurst) :
    admitKey ∅ key ratePerSec rateBurst now = (only key (rateBurst - 1) now, true) := by
  have hone' : (1 : ℚ) ≤ rateBurst := by exact_mod_cast hone
  have hsize : ¬MAX_RATE_BUCKETS ≤ (∅ : Table κ Bucket).size :=
    show ¬65536 ≤ 0 by decide
  rw [admitKey, if_neg (fun h => hsize h.1)]
  rw [AList.lookup_empty, level_none, if_pos hone', AList.insert_empty]

variable (config : Limits) (key : κ)

theorem spent_admit {start stop : Nat} (hnow : start ≤ now ∧ now ≤ stop)
    {buckets buckets' : Table κ Bucket}
    (h : admitKey buckets key config.ratePerSec config.rateBurst now = (buckets', true))
    (calls : List (LimiterCall κ)) :
    spent (limiterStep config) LimiterCall.time (admits config key) start stop buckets
        (.datagram key now :: calls) =
      spent (limiterStep config) LimiterCall.time (admits config key) start stop buckets' calls +
        1 := by
  have hcost : admits config key buckets (.datagram key now) = 1 := by
    rw [admits, h, if_pos ⟨rfl, rfl⟩]
  have hstep : limiterStep config buckets (.datagram key now) = buckets' := by rw [limiterStep, h]
  rw [spent, hcost, hstep, Nat.add_comm]
  exact congrArg (_ + ·) (if_pos hnow)

/-- A bucket with enough tokens admits a whole burst. -/
theorem burst_only {start stop : Nat} (hnow : start ≤ now ∧ now ≤ stop) {n : Nat} {tokens : ℚ}
    (hn : (n : ℚ) ≤ tokens) (hburst : tokens ≤ config.rateBurst) :
    spent (limiterStep config) LimiterCall.time (admits config key) start stop
        (only key tokens now) (List.replicate n (.datagram key now)) = n ∧
      run (limiterStep config) (only key tokens now) (List.replicate n (.datagram key now)) =
        only key (tokens - n) now := by
  induction n generalizing tokens with
  | zero =>
    refine ⟨rfl, ?_⟩
    rw [List.replicate_zero, run_nil, Nat.cast_zero, sub_zero]
  | succ n ih =>
    rw [Nat.cast_succ] at hn
    have htaken : admitKey (only key tokens now) key config.ratePerSec config.rateBurst now =
        (only key (tokens - 1) now, true) :=
      admit_only (by linarith [show (0 : ℚ) ≤ n from Nat.cast_nonneg n]) hburst
    have hless : (n : ℚ) ≤ tokens - 1 := by linarith
    obtain ⟨hspent, hrun⟩ := ih hless (by linarith)
    rw [List.replicate_succ, spent_admit config key hnow htaken, hspent, run_cons, limiterStep,
      htaken, hrun, Nat.cast_succ, sub_sub, add_comm 1]
    exact ⟨rfl, rfl⟩

/-- So does a limiter without buckets. -/
theorem burst_empty {start stop : Nat} (hnow : start ≤ now ∧ now ≤ stop)
    (hone : 1 ≤ config.rateBurst) :
    spent (limiterStep config) LimiterCall.time (admits config key) start stop
        ∅ (List.replicate config.rateBurst (.datagram key now)) = config.rateBurst ∧
      run (limiterStep config) ∅ (List.replicate config.rateBurst (.datagram key now)) =
        only key 0 now := by
  obtain ⟨n, hn⟩ := Nat.exists_eq_add_of_le' hone
  have hcast : (config.rateBurst : ℚ) - 1 = n := by rw [hn]; push_cast; ring
  have htaken : admitKey ∅ key config.ratePerSec config.rateBurst now = (only key n now, true) := by
    rw [admit_empty hone, hcast]
  obtain ⟨hspent, hrun⟩ := burst_only config key hnow (le_refl (n : ℚ)) (by linarith)
  rw [hn, List.replicate_succ, spent_admit config key hnow htaken, hspent, run_cons, limiterStep,
    htaken, hrun, sub_self]
  exact ⟨rfl, rfl⟩

/-- A burst, the reaper once the bucket is idle, and a second burst. -/
def twoBursts : List (LimiterCall κ) :=
  let idle := bucketIdle config.idleSecs
  List.replicate config.rateBurst (.datagram key 0) ++ .reap idle ::
    List.replicate config.rateBurst (.datagram key idle)

theorem twoBursts_admitted (hone : 1 ≤ config.rateBurst) :
    admittedWithin config key 0 (bucketIdle config.idleSecs) (twoBursts config key) =
      config.rateBurst + config.rateBurst := by
  have hreaped : limiterStep config (only key 0 0) (.reap (bucketIdle config.idleSecs)) = ∅ := by
    change (reapBuckets (only key 0 0) config.idleSecs (bucketIdle config.idleSecs)) = ∅
    apply AList.ext
    simp [reapBuckets, Table.retain, only, AList.singleton]
  have hidle : 0 ≤ bucketIdle config.idleSecs := Nat.zero_le _
  obtain ⟨hfirst, hrun⟩ := burst_empty config key ⟨le_refl 0, hidle⟩ hone
  obtain ⟨hsecond, -⟩ := burst_empty config key ⟨hidle, le_refl (bucketIdle _)⟩ hone
  rw [admittedWithin, twoBursts, spent_append, hfirst, hrun, spent, hreaped, hsecond, admits,
    ite_self, Nat.zero_add]

omit [DecidableEq κ] in
theorem twoBursts_inOrder : InOrder LimiterCall.time (twoBursts config key) := by
  refine List.pairwise_append.mpr ⟨List.pairwise_replicate.mpr (.inr le_rfl), ?_, ?_⟩
  · refine List.pairwise_cons.mpr ⟨fun call hcall => ?_,
      List.pairwise_replicate.mpr (.inr le_rfl)⟩
    rw [List.eq_of_mem_replicate hcall]
    exact le_refl _
  · intro call hcall call' _
    rw [List.eq_of_mem_replicate hcall]
    exact Nat.zero_le _

end Bursts

/-- The datagrams admitted for a key are at most the burst and the sustained rate over every window
of time, for all calls in order of time, exactly when the bucket is full again after the time for
which the reaper keeps it. -/
theorem admitted_window (config : Limits) (key : κ) :
    (∀ calls, InOrder LimiterCall.time calls → ∀ start stop, start ≤ stop →
      (admittedWithin config key start stop calls : ℚ) ≤
        config.rateBurst + config.ratePerSec * asSecs (stop - start)) ↔
    config.rateBurst ≤ config.ratePerSec * max config.idleSecs 60 := by
  constructor
  · intro hbound
    rcases Nat.eq_zero_or_pos config.rateBurst with hzero | hone
    · rw [hzero]
      exact Nat.zero_le _
    · have h := hbound _ (twoBursts_inOrder config key) 0 (bucketIdle config.idleSecs)
        (Nat.zero_le _)
      rw [twoBursts_admitted config key hone, Nat.sub_zero, bucketIdle, asSecs_secs] at h
      push_cast at h
      have : (config.rateBurst : ℚ) ≤ config.ratePerSec * (max config.idleSecs 60 : Nat) := by
        push_cast
        linarith
      exact_mod_cast this
  · intro hfull calls horder start stop hwindow
    have h := (limiter_meter config key hfull).spent_le horder hwindow
      (fun b hb => by rw [AList.lookup_empty] at hb; cases hb)
    rw [asSecs, Nat.cast_sub hwindow]
    calc (admittedWithin config key start stop calls : ℚ) ≤ _ := h
      _ = _ := by ring

/-- One datagram a second with a burst of 100 is a configuration that is accepted, and a sender that
waits a minute between bursts has 200 datagrams admitted in it, where 160 are allowed. -/
theorem twoBursts_exceed :
    let config : Limits := { idleSecs := 60, ratePerSec := 1, rateBurst := 100 }
    validateRelay [] config = [] ∧ InOrder LimiterCall.time (twoBursts config 0) ∧
      admittedWithin config 0 0 (secs 60) (twoBursts config 0) = 200 ∧
      (config.rateBurst : ℚ) + config.ratePerSec * asSecs (secs 60 - 0) = 160 := by
  refine ⟨by decide, twoBursts_inOrder _ 0, twoBursts_admitted _ 0 (by decide), ?_⟩
  rw [Nat.sub_zero, asSecs_secs]
  norm_num

end BlakTail.Relay
