import Mathlib

/-!
# Address Blocks

A block of a space of `w`-bit numbers is a number with a count of leading bits: it holds the
numbers that agree with it on those bits.  Bits behind them do not matter.  Two blocks are
nested or apart.
-/

namespace BlakTail.Foundation

/-- A number and how many of its leading bits count. -/
structure Block where
  net : Nat
  len : Nat
  deriving DecidableEq

namespace Block

variable {w : Nat} {a b c : Block} {rest net : Nat} {excluded : List Block}

/-- The leading bits, as a number. -/
def lead (w len a : Nat) : Nat := a / 2 ^ (w - len)

/-- Every number of `inner` lies in `outer`. -/
def Within (w : Nat) (inner outer : Block) : Prop :=
  outer.len ≤ inner.len ∧ lead w outer.len inner.net = lead w outer.len outer.net

instance (inner outer : Block) : Decidable (Within w inner outer) :=
  inferInstanceAs (Decidable (_ ∧ _))

/-- Some number lies in both. -/
def Meets (w : Nat) (a b : Block) : Prop := Within w a b ∨ Within w b a

/-- Fewer leading bits are leading bits of the leading bits. -/
theorem lead_lead {short long : Nat} (hshort : short ≤ long) (hlong : long ≤ w) (a : Nat) :
    lead w short a = lead w long a / 2 ^ (long - short) := by
  unfold lead
  rw [Nat.div_div_eq_div_mul, ← Nat.pow_add]
  congr 2
  omega

theorem lead_mono {short long : Nat} {a b : Nat} (hshort : short ≤ long) (hlong : long ≤ w)
    (h : lead w long a = lead w long b) : lead w short a = lead w short b := by
  rw [lead_lead hshort hlong, lead_lead hshort hlong, h]

theorem within_refl (a : Block) : Within w a a := ⟨Nat.le_refl _, rfl⟩

theorem Within.trans (hab : Within w a b) (hbc : Within w b c) (hb : b.len ≤ w) : Within w a c :=
  ⟨hbc.1.trans hab.1, (lead_mono hbc.1 hb hab.2).trans hbc.2⟩

theorem Meets.symm (h : Meets w a b) : Meets w b a := Or.symm h

/-- Blocks that share a block are nested. -/
theorem nested (ha : a.len ≤ w) (hb : b.len ≤ w) (hca : Within w c a) (hcb : Within w c b) :
    Meets w a b := by
  rcases Nat.le_total a.len b.len with hle | hle
  · right
    exact ⟨hle, (lead_mono hle hb hcb.2).symm.trans hca.2⟩
  · left
    exact ⟨hle, (lead_mono hle ha hca.2).symm.trans hcb.2⟩

/-- What meets a block meets the blocks around it. -/
theorem Within.meets (hb : b.len ≤ w) (hab : Within w a b) (hac : Meets w c a) (hc : c.len ≤ w) :
    Meets w c b := by
  rcases hac with hca | hca
  · exact .inl (hca.trans hab (hca.1.trans hc))
  · exact nested hc hb hca hab

/-! ## Taking blocks away -/

/-- What is left of the block of `net` with `w - rest` leading bits when the blocks of
`excluded` are taken away, in as few parts as halving gives. -/
def split (w : Nat) (excluded : List Block) : (rest : Nat) → (net : Nat) → List Block
  | 0, net =>
    if excluded.any fun gone => Within w ⟨net, w⟩ gone then []
    else if !excluded.any fun gone => Within w gone ⟨net, w⟩ then [⟨net, w⟩]
    else []
  | rest + 1, net =>
    let here : Block := ⟨net, w - (rest + 1)⟩
    if excluded.any fun gone => Within w here gone then []
    else if !excluded.any fun gone => Within w gone here then [here]
    else split w excluded rest net ++ split w excluded rest (net ||| 2 ^ rest)

/-- The lower and the upper half of a block. -/
theorem halves (hrest : rest < w) (hnet : 2 ^ (rest + 1) ∣ net) :
    2 ^ rest ∣ net ∧ 2 ^ rest ∣ net ||| 2 ^ rest ∧
      lead w (w - rest) net = 2 * lead w (w - (rest + 1)) net ∧
      lead w (w - rest) (net ||| 2 ^ rest) = 2 * lead w (w - (rest + 1)) net + 1 ∧
      lead w (w - (rest + 1)) (net ||| 2 ^ rest) = lead w (w - (rest + 1)) net := by
  obtain ⟨k, rfl⟩ := hnet
  have hor : 2 ^ (rest + 1) * k ||| 2 ^ rest = 2 ^ (rest + 1) * k + 2 ^ rest :=
    Nat.two_pow_add_eq_or_of_lt (Nat.pow_lt_pow_right (by decide) (Nat.lt_succ_self rest)) k
      |>.symm
  have hpow : 2 ^ (rest + 1) = 2 ^ rest * 2 := Nat.pow_succ 2 rest
  have hpos : 0 < 2 ^ rest := Nat.two_pow_pos rest
  have hdivLow : 2 ^ (rest + 1) * k / 2 ^ rest = 2 * k := by
    rw [hpow, Nat.mul_assoc, Nat.mul_div_cancel_left _ hpos]
  have hdivHigh : (2 ^ (rest + 1) * k + 2 ^ rest) / 2 ^ rest = 2 * k + 1 := by
    rw [Nat.add_div_right _ hpos, hdivLow]
  have hdiv : 2 ^ (rest + 1) * k / 2 ^ (rest + 1) = k :=
    Nat.mul_div_cancel_left _ (Nat.two_pow_pos _)
  have hdivSame : (2 ^ (rest + 1) * k + 2 ^ rest) / 2 ^ (rest + 1) = k := by
    rw [Nat.mul_add_div (Nat.two_pow_pos _), Nat.div_eq_of_lt, Nat.add_zero]
    exact Nat.pow_lt_pow_right (by decide) (Nat.lt_succ_self rest)
  have hlow : w - (w - rest) = rest := by omega
  have hhigh : w - (w - (rest + 1)) = rest + 1 := by omega
  unfold lead
  rw [hor, hlow, hhigh, hdivLow, hdivHigh, hdiv, hdivSame]
  refine ⟨⟨2 * k, by rw [hpow, Nat.mul_assoc]⟩, ⟨2 * k + 1, ?_⟩, rfl, rfl, rfl⟩
  rw [Nat.mul_add, ← Nat.mul_assoc, ← hpow, Nat.mul_one]

/-- The parts lie in the block, are no longer than the space allows, and have no bits behind their
length. -/
theorem split_within (hrest : rest ≤ w) (hnet : 2 ^ rest ∣ net) :
    ∀ part ∈ split w excluded rest net,
      part.len ≤ w ∧ Within w part ⟨net, w - rest⟩ ∧ 2 ^ (w - part.len) ∣ part.net := by
  induction rest generalizing net with
  | zero =>
    intro part hpart
    unfold split at hpart
    split_ifs at hpart
    · cases hpart
    · cases List.mem_singleton.mp hpart
      exact ⟨Nat.le_refl _, within_refl _, by simp⟩
    · cases hpart
  | succ rest ih =>
    intro part hpart
    obtain ⟨hlow, hhigh, -, -, hsame⟩ := halves (w := w) hrest hnet
    unfold split at hpart
    dsimp only at hpart
    split_ifs at hpart
    · cases hpart
    · cases List.mem_singleton.mp hpart
      refine ⟨Nat.sub_le _ _, within_refl _, ?_⟩
      rwa [Nat.sub_sub_self hrest]
    · have hhalf : ∀ half, lead w (w - (rest + 1)) half = lead w (w - (rest + 1)) net →
          Within w ⟨half, w - rest⟩ ⟨net, w - (rest + 1)⟩ := by
        intro half heq
        exact ⟨by show w - (rest + 1) ≤ w - rest; omega, heq⟩
      rcases List.mem_append.mp hpart with hpart | hpart
      · obtain ⟨hlen, hin, haligned⟩ := ih (by omega) hlow part hpart
        exact ⟨hlen, hin.trans (hhalf net rfl) (Nat.sub_le _ _), haligned⟩
      · obtain ⟨hlen, hin, haligned⟩ := ih (by omega) hhigh part hpart
        exact ⟨hlen, hin.trans (hhalf _ hsame) (Nat.sub_le _ _), haligned⟩

/-- A block longer than another that holds it lies in one of its halves, and not in the
other. -/
theorem within_halves (hrest : rest < w) (hnet : 2 ^ (rest + 1) ∣ net) (hlong : w - rest ≤ b.len)
    (hin : Within w b ⟨net, w - (rest + 1)⟩) :
    Within w b ⟨net, w - rest⟩ ∧ ¬ Within w b ⟨net ||| 2 ^ rest, w - rest⟩ ∨
      ¬ Within w b ⟨net, w - rest⟩ ∧ Within w b ⟨net ||| 2 ^ rest, w - rest⟩ := by
  obtain ⟨-, -, hlow, hhigh, -⟩ := halves (w := w) hrest hnet
  have hlead : lead w (w - (rest + 1)) b.net = lead w (w - rest) b.net / 2 := by
    have hone : w - rest - (w - (rest + 1)) = 1 := by omega
    have hshort : w - (rest + 1) ≤ w - rest := by omega
    rw [lead_lead hshort (Nat.sub_le _ _), hone, Nat.pow_one]
  have hsame : lead w (w - (rest + 1)) b.net = lead w (w - (rest + 1)) net := hin.2
  unfold Within
  dsimp only
  rcases Nat.mod_two_eq_zero_or_one (lead w (w - rest) b.net) with heven | hodd
  · left
    exact ⟨⟨hlong, by omega⟩, fun h => by have := h.2; omega⟩
  · right
    exact ⟨fun h => by have := h.2; omega, hlong, by omega⟩

/-- A block taken away that holds another leaves nothing of it. -/
theorem meets_of_any_holds {here : Block} (hin : Within w b here) (hlen : here.len ≤ w)
    (hany : (excluded.any fun gone => Within w here gone)) :
    ¬ ∀ gone ∈ excluded, ¬ Meets w gone b := by
  intro hfree
  obtain ⟨gone, hgone, hwithin⟩ := List.any_eq_true.mp hany
  exact hfree gone hgone (.inr (hin.trans (of_decide_eq_true hwithin) hlen))

/-- If no block taken away holds another or lies in it, none meets what lies in it. -/
theorem free_of_none {here : Block}
    (hexcluded : ∀ gone ∈ excluded, gone.len ≤ w) (hin : Within w b here)
    (hlen : here.len ≤ w) (hout : ¬ (excluded.any fun gone => Within w here gone))
    (hinside : (!excluded.any fun gone => Within w gone here)) :
    ∀ gone ∈ excluded, ¬ Meets w gone b := by
  intro gone hgone hmeets
  rw [Bool.not_eq_true', List.any_eq_false] at hinside
  rcases hin.meets hlen hmeets (hexcluded gone hgone) with h | h
  · exact hinside gone hgone (decide_eq_true h)
  · exact hout (List.any_eq_true.mpr ⟨gone, hgone, decide_eq_true h⟩)

/-- A block lies in one of the parts exactly if it meets none of the blocks taken away. -/
theorem within_split_iff (hexcluded : ∀ gone ∈ excluded, gone.len ≤ w) (hrest : rest ≤ w)
    (hnet : 2 ^ rest ∣ net) (hin : Within w b ⟨net, w - rest⟩) :
    (∃ part ∈ split w excluded rest net, Within w b part) ↔
      ∀ gone ∈ excluded, ¬ Meets w gone b := by
  induction rest generalizing net with
  | zero =>
    unfold split
    split_ifs with hgone hfree
    · exact iff_of_false (by simp) (meets_of_any_holds hin le_rfl hgone)
    · exact iff_of_true ⟨_, List.mem_singleton_self _, hin⟩
        (free_of_none hexcluded hin le_rfl hgone hfree)
    · -- What lies in a full-length block is that block, so this was the first case.
      exfalso
      simp only [Bool.not_eq_true', Bool.not_eq_false] at hfree
      obtain ⟨gone, hmem, hwithin⟩ := List.any_eq_true.mp hfree
      have hwithin := of_decide_eq_true hwithin
      have hlen : gone.len = w := Nat.le_antisymm (hexcluded gone hmem) hwithin.1
      refine hgone (List.any_eq_true.mpr ⟨gone, hmem, decide_eq_true ⟨hexcluded gone hmem, ?_⟩⟩)
      rw [hlen]
      exact hwithin.2.symm
  | succ rest ih =>
    unfold split
    dsimp only
    split_ifs with hgone hfree
    · exact iff_of_false (by simp) (meets_of_any_holds hin (Nat.sub_le _ _) hgone)
    · exact iff_of_true ⟨_, List.mem_singleton_self _, hin⟩
        (free_of_none hexcluded hin (Nat.sub_le _ _) hgone hfree)
    · simp only [Bool.not_eq_true', Bool.not_eq_false] at hfree
      obtain ⟨hlow, hhigh, -, -, -⟩ := halves (w := w) hrest hnet
      -- A part of a half that holds `b` makes the half hold it.
      have hpart : ∀ half, 2 ^ rest ∣ half → ∀ part ∈ split w excluded rest half, Within w b part →
          Within w b ⟨half, w - rest⟩ := by
        intro half hhalf part hpart hbpart
        obtain ⟨hlen, hpart, -⟩ := split_within (by omega) hhalf part hpart
        exact hbpart.trans hpart hlen
      simp only [List.mem_append, or_and_right, exists_or]
      by_cases hlong : w - rest ≤ b.len
      · rcases within_halves hrest hnet hlong hin with ⟨hyes, hno⟩ | ⟨hno, hyes⟩
        · rw [← ih (Nat.le_of_lt hrest) hlow hyes, or_iff_left]
          rintro ⟨part, hmem, hbpart⟩
          exact hno (hpart _ hhigh part hmem hbpart)
        · rw [← ih (Nat.le_of_lt hrest) hhigh hyes, or_iff_right]
          rintro ⟨part, hmem, hbpart⟩
          exact hno (hpart _ hlow part hmem hbpart)
      · -- The block itself: no part holds it, and something in it was taken away.
        have hlen : b.len = w - (rest + 1) := by
          have := hin.1
          dsimp only at this
          omega
        refine iff_of_false ?_ ?_
        · rintro (⟨part, hmem, hbpart⟩ | ⟨part, hmem, hbpart⟩)
          · exact hlong (hpart _ hlow part hmem hbpart).1
          · exact hlong (hpart _ hhigh part hmem hbpart).1
        · intro hnothing
          obtain ⟨gone, hmem, hwithin⟩ := List.any_eq_true.mp hfree
          have hwithin := of_decide_eq_true hwithin
          refine hnothing gone hmem (.inl ⟨hlen ▸ hwithin.1, ?_⟩)
          rw [hlen, hwithin.2]
          exact hin.2.symm

/-- The parts of the whole space lie in it. -/
theorem net_lt_of_mem_split {part : Block} (hpart : part ∈ split w excluded w 0) :
    part.net < 2 ^ w := by
  have hin := (split_within (Nat.le_refl w) (Nat.dvd_zero _) part hpart).2.1.2
  dsimp only [lead] at hin
  rw [Nat.sub_self, Nat.sub_zero, Nat.zero_div, Nat.div_eq_zero_iff_lt (Nat.two_pow_pos _)] at hin
  exact hin

/-- Of the whole space, a block lies in a part exactly if it meets nothing excluded. -/
theorem within_whole_iff (hexcluded : ∀ gone ∈ excluded, gone.len ≤ w) (hb : b.net < 2 ^ w) :
    (∃ part ∈ split w excluded w 0, Within w b part) ↔ ∀ gone ∈ excluded, ¬ Meets w gone b := by
  refine within_split_iff hexcluded (Nat.le_refl w) (Nat.dvd_zero _) ⟨by simp, ?_⟩
  simp [lead, Nat.div_eq_of_lt hb]

end Block

/-! ## Masks -/

/-- The mask with `len` leading ones. -/
def leading (w len : Nat) : BitVec w := if len = 0 then 0 else BitVec.allOnes w <<< (w - len)

section

variable {w len : Nat}

theorem getLsbD_and_leading (x : BitVec w) (i : Nat) :
    (x &&& leading w len).getLsbD i = (x.getLsbD i && decide (w - len ≤ i)) := by
  rw [BitVec.getLsbD_and]
  unfold leading
  by_cases hi : i < w
  · split_ifs with hzero
    · have hnot : ¬ w - len ≤ i := by omega
      simp [hnot]
    · have hshift : i - (w - len) < w := by omega
      simp only [BitVec.getLsbD_shiftLeft, BitVec.getLsbD_allOnes, hi, hshift, decide_true,
        Bool.and_true, Bool.true_and]
      by_cases hle : w - len ≤ i
      · simp [hle, Nat.not_lt.mpr hle]
      · simp [hle, Nat.lt_of_not_le hle]
  · rw [BitVec.getLsbD_of_ge x i (Nat.le_of_not_lt hi), Bool.false_and, Bool.false_and]

/-- The mask keeps what has no bits behind it. -/
theorem and_leading_eq_self {x : BitVec w} (hx : 2 ^ (w - len) ∣ x.toNat) :
    x &&& leading w len = x := by
  obtain ⟨k, hk⟩ := hx
  refine BitVec.eq_of_getLsbD_eq fun i _ => ?_
  rw [getLsbD_and_leading, BitVec.getLsbD, hk, Nat.testBit_two_pow_mul]
  by_cases hi : w - len ≤ i
  · simp [hi]
  · simp [hi]

/-- Comparing under a mask is comparing leading bits. -/
theorem and_leading_eq_iff (a b : BitVec w) :
    a &&& leading w len = b &&& leading w len ↔
      Block.lead w len a.toNat = Block.lead w len b.toNat := by
  have hbit : ∀ x : BitVec w, ∀ i, (x &&& leading w len).getLsbD i = _ := getLsbD_and_leading
  unfold Block.lead
  constructor
  · intro h
    refine Nat.eq_of_testBit_eq fun i => ?_
    have hi := hbit a (i + (w - len))
    rw [h, hbit b] at hi
    simpa [Nat.testBit_div_two_pow, BitVec.getLsbD] using hi.symm
  · intro h
    refine BitVec.eq_of_getLsbD_eq fun i _ => ?_
    rw [hbit, hbit]
    by_cases hi : w - len ≤ i
    · have hsame := congrArg (fun x => x.testBit (i - (w - len))) h
      simp only [Nat.testBit_div_two_pow, Nat.sub_add_cancel hi] at hsame
      rw [BitVec.getLsbD, BitVec.getLsbD, hsame]
    · simp [hi]

end

end BlakTail.Foundation
