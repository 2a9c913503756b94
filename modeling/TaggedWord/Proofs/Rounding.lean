import TaggedWord.Proofs.Binary64Value
import Mathlib.Data.Nat.Log

/-! # Rounding to the nearest floating-point number

All roundings go through `Binary64.nearestRank`, which cuts a quotient to 53 bits and rounds what is
left to the nearest whole number. It respects the order of the numbers that are rounded
(`nearestRank_mono`) and leaves magnitudes as they are (`nearestRank_quantaOfRank`), so a sum is
rounded to the right side of every floating-point number.

* **`cutOf`** — the number of bits that are cut off.
* **`roundedQuanta`** — the value of a rounded number of quanta, with `quanta_add_of_finite` for
  sums. -/

namespace TaggedWord.Binary64

/-! ## Whole quotients -/

/-- `divHalfEven num den` is at least the quotient. -/
theorem div_le_divHalfEven (num den : Nat) : num / den ≤ divHalfEven num den := by
  rw [divHalfEven]
  split
  · exact Nat.le_refl _
  · exact Nat.le_succ _

/-- `divHalfEven num den` is at most one more than the quotient. -/
theorem divHalfEven_le (num den : Nat) : divHalfEven num den ≤ num / den + 1 := by
  rw [divHalfEven]
  split
  · exact Nat.le_succ _
  · exact Nat.le_refl _

/-- `divHalfEven (q * den) den = q`: a whole quotient is not rounded. -/
theorem divHalfEven_mul (q : Nat) {den : Nat} (hden : 0 < den) : divHalfEven (q * den) den = q := by
  rw [divHalfEven, Nat.mul_mod_left, Nat.mul_div_cancel _ hden]
  simp [hden]

/-- **The nearest whole number grows with the numerator**: `divHalfEven · den` is monotone. -/
theorem divHalfEven_mono {a b : Nat} (den : Nat) (hab : a ≤ b) :
    divHalfEven a den ≤ divHalfEven b den := by
  rcases Nat.lt_or_eq_of_le (Nat.div_le_div_right (c := den) hab) with hlt | heq
  · calc
      divHalfEven a den ≤ a / den + 1 := divHalfEven_le a den
      _ ≤ b / den := hlt
      _ ≤ divHalfEven b den := div_le_divHalfEven b den
  · -- with the same quotient the rests are in the order of the numerators
    have hrest : a % den ≤ b % den := by
      have ha := Nat.div_add_mod a den
      have hb := Nat.div_add_mod b den
      rw [heq] at ha
      omega
    simp only [divHalfEven, heq, Bool.or_eq_true, Bool.and_eq_true, decide_eq_true_iff, beq_iff_eq]
    split <;> split <;> omega

/-! ## Ranks -/

/-- The number of bits by which a magnitude exceeds 53 bits. -/
def cutOf (n : Nat) : Nat := n.log2 - 52

/-- `nearestRank` with its cut as `cutOf` and its shifts as powers of two. -/
theorem nearestRank_eq (num den : Nat) :
    nearestRank num den
      = min (cutOf (num / den) * blockSize + divHalfEven num (den * 2 ^ cutOf (num / den)))
        infinityRank := by
  rw [nearestRank, Nat.shiftLeft_eq, cutOf]

/-- `n / 2 ^ cutOf n` has at most 53 bits. -/
theorem div_two_pow_cutOf_lt (n : Nat) : n / 2 ^ cutOf n < 2 * blockSize := by
  apply Nat.div_lt_of_lt_mul
  calc
    n < 2 ^ (n.log2 + 1) := Nat.lt_log2_self
    _ ≤ 2 ^ (cutOf n + 53) := Nat.pow_le_pow_right (by decide) (by rw [cutOf]; omega)
    _ = 2 ^ cutOf n * (2 * blockSize) := Nat.pow_add _ _ _

/-- `n / 2 ^ cutOf n` has at least 53 bits if there is a cut. -/
theorem le_div_two_pow_cutOf {n : Nat} (h : cutOf n ≠ 0) : blockSize ≤ n / 2 ^ cutOf n := by
  rw [Nat.le_div_iff_mul_le (Nat.two_pow_pos _)]
  have hn : n ≠ 0 := by
    rintro rfl
    exact h rfl
  calc
    blockSize * 2 ^ cutOf n = 2 ^ (52 + cutOf n) := (Nat.pow_add 2 52 _).symm
    _ ≤ 2 ^ n.log2 := Nat.pow_le_pow_right (by decide) (by rw [cutOf] at h ⊢; omega)
    _ ≤ n := Nat.log2_self_le hn

/-- `cutOf` is monotone. -/
theorem cutOf_mono {a b : Nat} (h : a ≤ b) : cutOf a ≤ cutOf b := by
  rw [cutOf, cutOf, Nat.log2_eq_log_two, Nat.log2_eq_log_two]
  exact Nat.sub_le_sub_right (Nat.log_mono_right h) 52

/-- **The nearest rank grows with the numerator**: `nearestRank · den` is monotone. -/
theorem nearestRank_mono {a b : Nat} (den : Nat) (hab : a ≤ b) :
    nearestRank a den ≤ nearestRank b den := by
  rw [nearestRank_eq, nearestRank_eq]
  refine min_le_min_right _ ?_
  have hdiv : a / den ≤ b / den := Nat.div_le_div_right hab
  rcases Nat.lt_or_eq_of_le (cutOf_mono hdiv) with hlt | heq
  · -- a longer cut leads to a later block of ranks
    have ha := divHalfEven_le a (den * 2 ^ cutOf (a / den))
    have hb := div_le_divHalfEven b (den * 2 ^ cutOf (b / den))
    rw [← Nat.div_div_eq_div_mul] at ha hb
    have ha' := div_two_pow_cutOf_lt (a / den)
    have hb' := le_div_two_pow_cutOf (n := b / den) (by omega)
    have hblocks : (cutOf (a / den) + 1) * blockSize ≤ cutOf (b / den) * blockSize :=
      Nat.mul_le_mul_right _ hlt
    rw [Nat.add_one_mul] at hblocks
    omega
  · rw [heq]
    exact Nat.add_le_add_left (divHalfEven_mono _ hab) _

/-- `cutOf` of a magnitude is the number of blocks before its own, less the first. -/
theorem cutOf_quantaOfRank {e m : Nat} (hm : m < blockSize) :
    cutOf (quantaOfRank (e * blockSize + m)) = e - 1 := by
  rw [quantaOfRank_fields hm, cutOf]
  by_cases he : e = 0
  · have hlog : m.log2 < 53 := by
      rcases Nat.eq_zero_or_pos m with rfl | hpos
      · decide
      · exact (Nat.log2_lt hpos.ne').2 (Nat.lt_trans hm (by decide))
    rw [if_pos he]
    omega
  · -- the digit in front of the fraction is the highest of the magnitude
    have hlog : ((blockSize + m) * 2 ^ (e - 1)).log2 = 52 + (e - 1) := by
      have hpow : 0 < 2 ^ (e - 1) := Nat.two_pow_pos _
      have hne : (blockSize + m) * 2 ^ (e - 1) ≠ 0 :=
        (Nat.mul_pos (Nat.add_pos_left blockSize_pos m) hpow).ne'
      rw [Nat.log2_eq_iff hne, Nat.pow_add, Nat.add_right_comm, Nat.pow_add]
      exact ⟨Nat.mul_le_mul_right _ (Nat.le_add_right _ _),
        Nat.mul_lt_mul_of_pos_right (Nat.add_lt_add_left hm _) hpow⟩
    rw [if_neg he, hlog, Nat.add_sub_cancel_left]

/-- **Magnitudes are not rounded**: `nearestRank (quantaOfRank r) 1 = r`. -/
theorem nearestRank_quantaOfRank {r : Nat} (hr : r ≤ infinityRank) :
    nearestRank (quantaOfRank r) 1 = r := by
  obtain ⟨e, m, hm, rfl⟩ : ∃ e m, m < blockSize ∧ r = e * blockSize + m :=
    ⟨r / blockSize, r % blockSize, Nat.mod_lt _ blockSize_pos, (Nat.div_add_mod' r _).symm⟩
  rw [nearestRank_eq, Nat.div_one, Nat.one_mul, cutOf_quantaOfRank hm]
  have hcut : (e - 1) * blockSize + divHalfEven (quantaOfRank (e * blockSize + m)) (2 ^ (e - 1))
      = e * blockSize + m := by
    rw [quantaOfRank_fields hm]
    cases e with
    | zero =>
      have hwhole := divHalfEven_mul m Nat.one_pos
      rw [Nat.mul_one] at hwhole
      rw [if_pos rfl]
      simp [hwhole]
    | succ k =>
      -- the cut takes away the power of two that the fields have put in
      rw [if_neg (Nat.succ_ne_zero k), Nat.add_sub_cancel, divHalfEven_mul _ (Nat.two_pow_pos k),
        ← Nat.add_assoc, Nat.add_one_mul]
  rw [hcut, Nat.min_eq_left hr]

/-- `nearestRank num den` is at most `infinityRank`, so every rounding is a number. -/
theorem nearestRank_le (num den : Nat) : nearestRank num den ≤ infinityRank := by
  rw [nearestRank_eq]
  exact Nat.min_le_right _ _

/-! ## Rounded quanta -/

/-- **The value of the number nearest to a whole number of quanta.** -/
def roundedQuanta (q : Int) : Int :=
  if q < 0 then -(quantaOfRank (nearestRank q.natAbs 1) : Int)
  else quantaOfRank (nearestRank q.natAbs 1)

/-- **Rounding respects the order**: `roundedQuanta` is monotone. -/
theorem roundedQuanta_mono {a b : Int} (hab : a ≤ b) : roundedQuanta a ≤ roundedQuanta b := by
  have hmono {m n : Nat} (h : m ≤ n) :
      quantaOfRank (nearestRank m 1) ≤ quantaOfRank (nearestRank n 1) :=
    quantaOfRank_strictMono.monotone (nearestRank_mono 1 h)
  rw [roundedQuanta, roundedQuanta]
  -- magnitudes are rounded in their order, and two negative signs turn it around
  split <;> split
  · have := hmono (m := b.natAbs) (n := a.natAbs) (by omega)
    omega
  · omega
  · omega
  · have := hmono (m := a.natAbs) (n := b.natAbs) (by omega)
    omega

/-- `(ofRank s r).rank = r` up to the rank of infinity. -/
theorem rank_ofRank (s : Bool) {r : Nat} (hr : r ≤ infinityRank) : (ofRank s r).rank = r := by
  rw [infinityRank] at hr
  rw [rank, ofRank, BitVec.toNat_ofNat, signWeight]
  cases s with
  | false =>
    rw [if_neg Bool.false_ne_true]
    omega
  | true =>
    rw [if_pos rfl]
    omega

/-- `(ofRank s r).signBit = s` up to the rank of infinity. -/
theorem signBit_ofRank (s : Bool) {r : Nat} (hr : r ≤ infinityRank) :
    (ofRank s r).signBit = s := by
  rw [infinityRank] at hr
  rw [signBit, ofRank, BitVec.msb_eq_decide, BitVec.toNat_ofNat, signWeight]
  cases s with
  | false =>
    rw [if_neg Bool.false_ne_true]
    exact decide_eq_false (by omega)
  | true =>
    rw [if_pos rfl]
    exact decide_eq_true (by omega)

/-- `ofQuanta` gives a number, never NaN. -/
theorem isNaN_ofQuanta (zeroSign : Bool) (q : Int) : (ofQuanta zeroSign q).isNaN = false := by
  rw [isNaN_eq_false_iff, ofQuanta, rank_ofRank _ (nearestRank_le _ _)]
  exact nearestRank_le _ _

/-- `(ofQuanta zeroSign q).quanta = roundedQuanta q`: the sign of a zero does not show in the
value. -/
theorem quanta_ofQuanta (zeroSign : Bool) (q : Int) :
    (ofQuanta zeroSign q).quanta = roundedQuanta q := by
  rw [quanta, ofQuanta, signBit_ofRank _ (nearestRank_le _ _), rank_ofRank _ (nearestRank_le _ _),
    roundedQuanta]
  by_cases hq : q = 0
  · subst hq
    cases zeroSign <;> rfl
  · simp only [if_neg hq, decide_eq_true_iff]

/-- **Numbers are not rounded**: `roundedQuanta x.quanta = x.quanta`. -/
theorem roundedQuanta_quanta {x : Binary64} (hx : x.isNaN = false) :
    roundedQuanta x.quanta = x.quanta := by
  have hround := nearestRank_quantaOfRank ((isNaN_eq_false_iff x).1 hx)
  rw [quanta, roundedQuanta]
  cases x.signBit with
  | false =>
    rw [if_neg Bool.false_ne_true, if_neg (Int.not_lt.2 (Int.natCast_nonneg _)), Int.natAbs_natCast,
      hround]
  | true =>
    rw [if_pos rfl, Int.natAbs_neg, Int.natAbs_natCast, hround]
    split
    · rfl
    · omega

/-- **The sum of finite numbers** is the rounded sum of their values:
`(x.add y).quanta = roundedQuanta (x.quanta + y.quanta)`. -/
theorem quanta_add_of_finite {x y : Binary64} (hx : x.rank < infinityRank)
    (hy : y.rank < infinityRank) :
    (x.add y).isNaN = false ∧ (x.add y).quanta = roundedQuanta (x.quanta + y.quanta) := by
  have hnan {z : Binary64} (hz : z.rank < infinityRank) : z.isNaN = false :=
    (isNaN_eq_false_iff z).2 (Nat.le_of_lt hz)
  have hinf {z : Binary64} (hz : z.rank < infinityRank) : z.isInfinite = false :=
    beq_eq_false_iff_ne.2 (Nat.ne_of_lt hz)
  have hsum : x.add y = ofQuanta (x.signBit && y.signBit) (x.quanta + y.quanta) := by
    simp [add, hnan hx, hnan hy, hinf hx, hinf hy]
  rw [hsum]
  exact ⟨isNaN_ofQuanta _ _, quanta_ofQuanta _ _⟩

end TaggedWord.Binary64
