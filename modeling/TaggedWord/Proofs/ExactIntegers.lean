import TaggedWord.Proofs.Truncation

/-! # Integers that are floating-point numbers

The integers up to `2^53` are floating-point numbers, and beyond them the ones with enough powers of
two. Such an integer is converted to a number without rounding (`toRat_ofInt`), and every finite
number is cut to one of them (`isExact_truncate`).

* **`Binary64.IsExact`** — the integers that are the value of a finite number, with
  `isExact_iff_exists_rank` for their magnitudes.
* **`exists_rank_mul_two_pow`** — magnitudes of at most 53 bits before their zeros. -/

namespace TaggedWord.Binary64

/-! ## Magnitudes -/

/-- `quantaOfRank` beyond the first block: the unit of block `k + 1` is `2 ^ k`. -/
theorem quantaOfRank_block {k m : Nat} (hm : m < blockSize) :
    quantaOfRank ((k + 1) * blockSize + m) = (blockSize + m) * 2 ^ k := by
  rw [quantaOfRank_fields hm, if_neg (Nat.succ_ne_zero k), Nat.add_sub_cancel]

/-- `2 ^ (k + n) = 2 ^ k * 1 <<< n`: a power of two with a shift as one factor. -/
theorem two_pow_eq_mul_shiftLeft (k n : Nat) : 2 ^ (k + n) = 2 ^ k * 1 <<< n := by
  rw [Nat.one_shiftLeft, Nat.pow_add]

/-- `2 ^ (k + 1074) = 2 ^ k * quantaPerUnit`: a whole power of two counted in quanta. -/
theorem two_pow_eq_mul_quantaPerUnit (k : Nat) : 2 ^ (k + 1074) = 2 ^ k * quantaPerUnit :=
  two_pow_eq_mul_shiftLeft k 1074

/-- **A whole number `n * 2 ^ s` with `n` of at most 53 bits is a magnitude**, as long as it is not
too large: some rank below `infinityRank` has it as its `quantaOfRank`. -/
theorem exists_rank_mul_two_pow {n s : Nat} (hn : n < 2 ^ 53) (hs : s ≤ 971) :
    ∃ r < infinityRank, quantaOfRank r = n * 2 ^ s * quantaPerUnit := by
  rcases Nat.eq_zero_or_pos n with rfl | hpos
  · exact ⟨0, by decide, by rw [Nat.zero_mul, Nat.zero_mul]; rfl⟩
  · -- shift the highest digit to the place in front of the fraction
    have hlog : n.log2 ≤ 52 := Nat.le_of_lt_succ ((Nat.log2_lt hpos.ne').2 hn)
    obtain ⟨t, ht⟩ : ∃ t, n.log2 + t = 52 := ⟨52 - n.log2, by omega⟩
    have hdigit : blockSize ≤ n * 2 ^ t := by
      calc
        blockSize = 2 ^ n.log2 * 2 ^ t := by rw [← Nat.pow_add, ht]; rfl
        _ ≤ n * 2 ^ t := Nat.mul_le_mul_right _ (Nat.log2_self_le hpos.ne')
    have hbits : n * 2 ^ t < 2 * blockSize := by
      calc
        n * 2 ^ t < 2 ^ (n.log2 + 1) * 2 ^ t :=
          Nat.mul_lt_mul_of_pos_right Nat.lt_log2_self (Nat.two_pow_pos t)
        _ = 2 * blockSize := by rw [← Nat.pow_add, Nat.add_right_comm, ht]; rfl
    obtain ⟨m, hm⟩ := Nat.exists_eq_add_of_le hdigit
    obtain ⟨k, hk⟩ : ∃ k, t + k = s + 1074 := ⟨s + 1074 - t, by omega⟩
    have hmlt : m < blockSize := by omega
    refine ⟨(k + 1) * blockSize + m, ?_, ?_⟩
    · have hblocks : (k + 1) * blockSize ≤ 2046 * blockSize := Nat.mul_le_mul_right _ (by omega)
      rw [infinityRank]
      rw [blockSize] at hblocks hmlt ⊢
      omega
    · rw [quantaOfRank_block hmlt, ← hm, Nat.mul_assoc, ← Nat.pow_add, hk,
        two_pow_eq_mul_quantaPerUnit, Nat.mul_assoc]

/-- **The whole part of a magnitude is a magnitude**: below `2 ^ 53` all whole numbers are, and
above it `quantaOfRank` is whole itself. -/
theorem exists_rank_wholePart {r : Nat} (hr : r < infinityRank) :
    ∃ r' < infinityRank, quantaOfRank r' = quantaOfRank r / quantaPerUnit * quantaPerUnit := by
  rcases Nat.lt_or_ge r (1075 * blockSize) with hsmall | hlarge
  · have hbits : quantaOfRank r / quantaPerUnit < 2 ^ 53 := by
      apply Nat.div_lt_of_lt_mul
      calc
        quantaOfRank r < quantaOfRank ((1074 + 1) * blockSize + 0) :=
          quantaOfRank_strictMono hsmall
        _ = quantaPerUnit * blockSize := by
          have hunit := two_pow_eq_mul_quantaPerUnit 0
          rw [Nat.zero_add, Nat.pow_zero, Nat.one_mul] at hunit
          rw [quantaOfRank_block blockSize_pos, hunit, Nat.add_zero, Nat.mul_comm]
        _ ≤ quantaPerUnit * 2 ^ 53 := Nat.mul_le_mul_left _ (by decide)
    have hexists := exists_rank_mul_two_pow hbits (Nat.zero_le 971)
    rwa [Nat.pow_zero, Nat.mul_one] at hexists
  · obtain ⟨k, m, hm, rfl⟩ : ∃ k m, m < blockSize ∧ r = (k + 1074 + 1) * blockSize + m :=
      ⟨r / blockSize - 1075, r % blockSize, Nat.mod_lt _ blockSize_pos, by
        have hdiv := Nat.div_add_mod' r blockSize
        have hle : 1075 ≤ r / blockSize := (Nat.le_div_iff_mul_le blockSize_pos).2 hlarge
        rw [Nat.add_assoc, Nat.sub_add_cancel hle, hdiv]⟩
    have hwhole : quantaOfRank ((k + 1074 + 1) * blockSize + m)
        = (blockSize + m) * 2 ^ k * quantaPerUnit := by
      rw [quantaOfRank_block hm, two_pow_eq_mul_quantaPerUnit, Nat.mul_assoc]
    refine ⟨_, hr, ?_⟩
    rw [hwhole, Nat.mul_div_cancel _ quantaPerUnit_pos]

/-! ## Exact integers -/

/-- **The integers that are floating-point numbers.** -/
def IsExact (z : Int) : Prop := ∃ x : Binary64, x.exponent < 2047 ∧ x.toRat = z

/-- `x.toRat = z ↔ x.quanta = z * quantaPerUnit`: a number is an integer if it counts that many
times the quanta in one. -/
theorem toRat_eq_intCast_iff (x : Binary64) (z : Int) :
    x.toRat = z ↔ x.quanta = z * quantaPerUnit := by
  have hunit : (quantaPerUnit : ℚ) ≠ 0 := Nat.cast_ne_zero.2 quantaPerUnit_pos.ne'
  rw [← Int.cast_inj (α := ℚ), quanta_eq_toRat_mul, Int.cast_mul, Int.cast_natCast,
    mul_left_inj' hunit]

/-- `x.quanta.natAbs = quantaOfRank x.rank`: the sign bit is the sign of the quanta. -/
theorem natAbs_quanta (x : Binary64) : x.quanta.natAbs = quantaOfRank x.rank := by
  rw [quanta]
  split <;> omega

/-- **An integer is a number if its magnitude is one**: `IsExact z` iff some rank below
`infinityRank` has the magnitude `z.natAbs * quantaPerUnit`. -/
theorem isExact_iff_exists_rank (z : Int) :
    IsExact z ↔ ∃ r < infinityRank, quantaOfRank r = z.natAbs * quantaPerUnit := by
  constructor
  · rintro ⟨x, hfinite, hx⟩
    refine ⟨x.rank, (rank_lt_infinityRank_iff x).2 hfinite, ?_⟩
    rw [toRat_eq_intCast_iff] at hx
    rw [← natAbs_quanta, hx, Int.natAbs_mul, Int.natAbs_natCast]
  · rintro ⟨r, hr, hz⟩
    have hrank : (ofRank (z < 0) r).rank = r := rank_ofRank _ hr.le
    refine ⟨ofRank (z < 0) r, ?_, ?_⟩
    · rwa [← rank_lt_infinityRank_iff, hrank]
    · rw [toRat_eq_intCast_iff, quanta, signBit_ofRank _ hr.le, hrank, hz]
      by_cases hneg : z < 0
      · rw [if_pos (by simpa using hneg)]
        push_cast
        rw [abs_of_neg hneg, neg_mul, neg_neg]
      · rw [if_neg (by simpa using hneg)]
        push_cast
        rw [abs_of_nonneg (Int.not_lt.1 hneg)]

/-- `IsExact z` for `z.natAbs = n * 2 ^ s` with `n` of at most 53 bits. -/
theorem isExact_of_natAbs_eq {z : Int} {n s : Nat} (hz : z.natAbs = n * 2 ^ s) (hn : n < 2 ^ 53)
    (hs : s ≤ 971) : IsExact z := by
  rw [isExact_iff_exists_rank, hz]
  exact exists_rank_mul_two_pow hn hs

/-! ## Conversion -/

/-- `(ofInt z).signBit = decide (z < 0)`: the zero is the positive one. -/
theorem signBit_ofInt (z : Int) : (ofInt z).signBit = decide (z < 0) := by
  have hunit : (0 : Int) < quantaPerUnit := Int.natCast_pos.2 quantaPerUnit_pos
  rw [ofInt, ofQuanta, signBit_ofRank _ (nearestRank_le _ _)]
  by_cases hz : z = 0
  · rw [hz, Int.zero_mul, if_pos rfl]
    rfl
  · rw [if_neg (Int.mul_ne_zero hz hunit.ne'), decide_eq_decide]
    simpa using mul_lt_mul_iff_left₀ (b := z) (c := 0) hunit

/-- **Exact integers are converted without rounding**: `(ofInt z).toRat = z`. -/
theorem toRat_ofInt {z : Int} (hz : IsExact z) : (ofInt z).toRat = z := by
  obtain ⟨x, hfinite, hx⟩ := hz
  rw [toRat_eq_intCast_iff] at hx ⊢
  rw [ofInt, quanta_ofQuanta, ← hx, roundedQuanta_quanta (isNaN_of_exponent_lt hfinite)]

/-- `ofInt` respects the order of the integers. -/
theorem toRat_ofInt_mono {a b : Int} (h : a ≤ b) : (ofInt a).toRat ≤ (ofInt b).toRat := by
  have hunit : (0 : Int) ≤ quantaPerUnit := Int.natCast_nonneg _
  rw [← quanta_le_iff, ofInt, ofInt, quanta_ofQuanta, quanta_ofQuanta]
  exact roundedQuanta_mono (Int.mul_le_mul_of_nonneg_right h hunit)

/-- The sign bit of `ofInt z` is set for the numbers below zero only, so zero is converted to the
positive zero. -/
theorem signBit_ofInt_iff (z : Int) : (ofInt z).signBit = true ↔ (ofInt z).toRat < 0 := by
  rw [signBit_ofInt, decide_eq_true_iff]
  constructor
  · intro hz
    have hone : (ofInt (-1)).toRat = -1 := by
      rw [toRat_ofInt (isExact_of_natAbs_eq (n := 1) (s := 0) (by decide) (by decide) (by decide))]
      norm_num
    have hmono := toRat_ofInt_mono (Int.le_sub_one_of_lt hz)
    rw [Int.zero_sub, hone] at hmono
    linarith
  · intro hneg
    by_contra hz
    have hzero : (ofInt 0).toRat = 0 := by
      rw [toRat_ofInt (isExact_of_natAbs_eq (n := 0) (s := 0) (by decide) (by decide) (by decide))]
      norm_num
    have hmono := toRat_ofInt_mono (Int.not_lt.1 hz)
    rw [hzero] at hmono
    linarith

/-- `(ofInt z).rank` is the `nearestRank` of the magnitude counted in quanta. -/
theorem rank_ofInt (z : Int) : (ofInt z).rank = nearestRank (z.natAbs * quantaPerUnit) 1 := by
  rw [ofInt, ofQuanta, rank_ofRank _ (nearestRank_le _ _), Int.natAbs_mul, Int.natAbs_natCast]

/-- `ofInt z` is finite if some exact integer is at least as far from zero. -/
theorem exponent_ofInt_lt {z b : Int} (hb : IsExact b) (h : z.natAbs ≤ b.natAbs) :
    (ofInt z).exponent < 2047 := by
  obtain ⟨r, hr, hquanta⟩ := (isExact_iff_exists_rank b).1 hb
  rw [← rank_lt_infinityRank_iff, rank_ofInt]
  calc
    nearestRank (z.natAbs * quantaPerUnit) 1
        ≤ nearestRank (b.natAbs * quantaPerUnit) 1 :=
          nearestRank_mono 1 (Nat.mul_le_mul_right _ h)
    _ = r := by rw [← hquanta, nearestRank_quantaOfRank hr.le]
    _ < infinityRank := hr

/-- The magnitude of `truncate x.toRat` is the one of `x` cut to a whole number of
`quantaPerUnit`. -/
theorem natAbs_truncate_toRat (x : Binary64) :
    (truncate x.toRat).natAbs = quantaOfRank x.rank / quantaPerUnit := by
  have hunit : (quantaPerUnit : ℚ) ≠ 0 := Nat.cast_ne_zero.2 quantaPerUnit_pos.ne'
  have hmagnitude : x.magnitude = quantaOfRank x.rank / quantaPerUnit := by
    rw [quantaOfRank_eq_magnitude_mul, mul_div_cancel_right₀ _ hunit]
  have hnonneg : 0 ≤ x.magnitude := by
    rw [hmagnitude]
    exact div_nonneg (Nat.cast_nonneg _) (Nat.cast_nonneg _)
  have hcut : (truncate x.magnitude).natAbs = quantaOfRank x.rank / quantaPerUnit := by
    rw [truncate_of_nonneg hnonneg, hmagnitude, Rat.floor_natCast_div_natCast]
    exact Int.natAbs_natCast _
  rw [toRat]
  split
  · rw [truncate_neg, Int.natAbs_neg, hcut]
  · exact hcut

/-- **A finite number is cut to an exact integer**: `IsExact (truncate x.toRat)`. -/
theorem isExact_truncate {x : Binary64} (hx : x.exponent < 2047) : IsExact (truncate x.toRat) := by
  rw [isExact_iff_exists_rank, natAbs_truncate_toRat]
  exact exists_rank_wholePart ((rank_lt_infinityRank_iff x).2 hx)

end TaggedWord.Binary64
