import TaggedWord.Proofs.Comparison
import TaggedWord.Proofs.NumberRoundTrip

/-! # Words are converted to the nearest number

A magnitude lies between two neighbouring ranks, and rounding takes the nearer one, or the even one
of two that are equally near (`exists_neighbours`). As magnitudes grow with their ranks, no other
number is nearer. So a word is converted to the number nearest to its value, and the conversion
respects the order of words across tags.

* **`Binary64.IsNearestTo`** — the number nearest to a rational one, ties going to the even
  fraction.
* **`Binary64.lowerRank`** — the rank below a magnitude. -/

namespace TaggedWord

namespace Binary64

/-! ## Neighbouring ranks -/

/-- **The rank below a magnitude**: the digits that are left after the cut count on from the first
rank with this cut. -/
def lowerRank (n : Nat) : Nat := cutOf n * blockSize + n / 2 ^ cutOf n

/-- `lowerRank n` is `n` itself below the first cut; behind any other one it has the digit in front
of the fraction and a fraction `m`. -/
theorem lowerRank_cases (n : Nat) :
    (cutOf n = 0 ∧ n < blockSize ∧ lowerRank n = n) ∨
      ∃ m < blockSize, n / 2 ^ cutOf n = blockSize + m ∧
        lowerRank n = (cutOf n + 1) * blockSize + m := by
  have hlt := div_two_pow_cutOf_lt n
  rcases Nat.lt_or_ge (n / 2 ^ cutOf n) blockSize with hsmall | hlarge
  · have hcut : cutOf n = 0 := by
      by_contra hne
      exact absurd (le_div_two_pow_cutOf hne) (Nat.not_le.2 hsmall)
    rw [hcut, Nat.pow_zero, Nat.div_one] at hsmall
    refine .inl ⟨hcut, hsmall, ?_⟩
    rw [lowerRank, hcut, Nat.zero_mul, Nat.zero_add, Nat.pow_zero, Nat.div_one]
  · obtain ⟨m, hm⟩ := Nat.exists_eq_add_of_le hlarge
    refine .inr ⟨m, by omega, hm, ?_⟩
    rw [lowerRank, hm, Nat.add_one_mul, Nat.add_assoc]

/-- `quantaOfRank (lowerRank n)` is what the cut leaves of `n`. -/
theorem quantaOfRank_lowerRank (n : Nat) :
    quantaOfRank (lowerRank n) = n / 2 ^ cutOf n * 2 ^ cutOf n := by
  rcases lowerRank_cases n with ⟨hcut, hn, hrank⟩ | ⟨m, hm, hq, hrank⟩
  · rw [hrank, hcut, quantaOfRank, if_pos hn, Nat.pow_zero, Nat.div_one, Nat.mul_one]
  · rw [hrank, quantaOfRank_block hm, hq]

/-- `quantaOfRank (lowerRank n + 1)` is one unit `2 ^ cutOf n` above it. -/
theorem quantaOfRank_lowerRank_succ (n : Nat) :
    quantaOfRank (lowerRank n + 1) = n / 2 ^ cutOf n * 2 ^ cutOf n + 2 ^ cutOf n := by
  have hblock : lowerRank n / blockSize - 1 = cutOf n := by
    rcases lowerRank_cases n with ⟨hcut, hn, hrank⟩ | ⟨m, hm, -, hrank⟩
    · rw [hrank, hcut, Nat.div_eq_of_lt hn]
    · rw [hrank, div_blockSize hm, Nat.add_sub_cancel]
  rw [quantaOfRank_succ, hblock, quantaOfRank_lowerRank]

/-- **Rounding takes the nearer of two neighbours.** Every `n` lies between the magnitudes of two
neighbouring ranks, and `nearestRank n 1` is the one whose magnitude is nearer, or the even one of
the two. -/
theorem exists_neighbours (n : Nat) :
    ∃ r, quantaOfRank r ≤ n ∧ n < quantaOfRank (r + 1) ∧
      nearestRank n 1
        = min (if 2 * n < quantaOfRank r + quantaOfRank (r + 1) ∨
            2 * n = quantaOfRank r + quantaOfRank (r + 1) ∧ r % 2 = 0 then r else r + 1)
          infinityRank := by
  have hdiv := Nat.div_add_mod' n (2 ^ cutOf n)
  have hmod := Nat.mod_lt n (Nat.two_pow_pos (cutOf n))
  have hlo := quantaOfRank_lowerRank n
  have hhi := quantaOfRank_lowerRank_succ n
  refine ⟨lowerRank n, by omega, by omega, ?_⟩
  -- as a block has an even number of ranks, the rank is even where the cut magnitude is
  have heven : lowerRank n % 2 = n / 2 ^ cutOf n % 2 := by
    rw [lowerRank, blockSize]
    omega
  have hnearer : (2 * n < quantaOfRank (lowerRank n) + quantaOfRank (lowerRank n + 1) ∨
      2 * n = quantaOfRank (lowerRank n) + quantaOfRank (lowerRank n + 1) ∧ lowerRank n % 2 = 0) ↔
      (2 * (n % 2 ^ cutOf n) < 2 ^ cutOf n ∨
        2 * (n % 2 ^ cutOf n) = 2 ^ cutOf n ∧ n / 2 ^ cutOf n % 2 = 0) := by
    omega
  simp only [nearestRank_eq, Nat.div_one, Nat.one_mul, divHalfEven, Bool.or_eq_true,
    Bool.and_eq_true, decide_eq_true_iff, beq_iff_eq, hnearer]
  split
  · rw [lowerRank]
  · rw [lowerRank, Nat.add_assoc]

/-- **No `quantaOfRank s` is nearer to `n` than that of `nearestRank n 1`**, and if another one is
equally near, the nearest rank is even and `s` is odd. -/
theorem nearestRank_isNearest {n : Nat} (hfinite : nearestRank n 1 < infinityRank) (s : Nat) :
    ((quantaOfRank (nearestRank n 1) : Int) - n).natAbs ≤ ((quantaOfRank s : Int) - n).natAbs ∧
      (((quantaOfRank s : Int) - n).natAbs = ((quantaOfRank (nearestRank n 1) : Int) - n).natAbs →
        quantaOfRank s ≠ quantaOfRank (nearestRank n 1) →
          nearestRank n 1 % 2 = 0 ∧ s % 2 = 1) := by
  obtain ⟨r, hlo, hhi, hnearest⟩ := exists_neighbours n
  have hmono := quantaOfRank_strictMono.monotone
  have hlower : quantaOfRank s = quantaOfRank r → s = r :=
    fun h => quantaOfRank_strictMono.injective h
  have hupper : quantaOfRank s = quantaOfRank (r + 1) → s = r + 1 :=
    fun h => quantaOfRank_strictMono.injective h
  -- every other magnitude is beyond one of the two neighbours
  have hbeyond : quantaOfRank s ≤ quantaOfRank r ∨ quantaOfRank (r + 1) ≤ quantaOfRank s := by
    rcases Nat.lt_or_ge r s with hs | hs
    · exact .inr (hmono hs)
    · exact .inl (hmono hs)
  rw [hnearest] at hfinite ⊢
  rw [Nat.min_eq_left (by omega)]
  split
  · omega
  · omega

/-! ## Signs -/

/-- `roundedQuanta q` has the sign of `q`, so it is as far from it as their magnitudes are. -/
theorem natAbs_roundedQuanta_sub (q : Int) :
    (roundedQuanta q - q).natAbs
      = ((quantaOfRank (nearestRank q.natAbs 1) : Int) - q.natAbs).natAbs := by
  rw [roundedQuanta]
  split <;> omega

/-- **No number is nearer to `q` than `roundedQuanta q`**, and if a different `y` is equally near,
the rank of the rounded one is even and that of `y` is odd. -/
theorem roundedQuanta_isNearest {q : Int} (hfinite : nearestRank q.natAbs 1 < infinityRank)
    (y : Binary64) :
    (roundedQuanta q - q).natAbs ≤ (y.quanta - q).natAbs ∧
      ((y.quanta - q).natAbs = (roundedQuanta q - q).natAbs → y.quanta ≠ roundedQuanta q →
        nearestRank q.natAbs 1 % 2 = 0 ∧ y.rank % 2 = 1) := by
  obtain ⟨hnearest, htie⟩ := nearestRank_isNearest hfinite y.rank
  -- the magnitude of a number is at least as near to that of `q` as the number is to `q`
  have hmagnitude : ((quantaOfRank y.rank : Int) - q.natAbs).natAbs ≤ (y.quanta - q).natAbs := by
    rw [← natAbs_quanta]
    omega
  rw [natAbs_roundedQuanta_sub]
  refine ⟨hnearest.trans hmagnitude, fun heq hne => htie ?_ ?_⟩
  · -- a tie of the numbers is one of their magnitudes
    exact Nat.le_antisymm (hmagnitude.trans heq.le) hnearest
  · -- of the numbers of one magnitude that with the other sign is farther, unless both are zero
    intro hsame
    have hy := natAbs_quanta y
    have hzero := (nearestRank_isNearest hfinite 0).1
    have hrank : quantaOfRank 0 = 0 := rfl
    rw [roundedQuanta] at hne
    split at hne <;> omega

/-! ## Nearest numbers -/

/-- **The number nearest to a rational one**: a finite number from which no other finite number is
nearer, and whose fraction is even if a different one is equally near. -/
structure IsNearestTo (x : Binary64) (q : ℚ) : Prop where
  finite : x.exponent < 2047
  nearest : ∀ y : Binary64, y.exponent < 2047 → |x.toRat - q| ≤ |y.toRat - q|
  even_of_tie : ∀ y : Binary64, y.exponent < 2047 → |y.toRat - q| = |x.toRat - q| →
    y.toRat ≠ x.toRat → x.fraction % 2 = 0

/-- `|x.toRat - z| * quantaPerUnit` is the distance from an integer, counted in quanta. -/
theorem abs_toRat_sub_mul (x : Binary64) (z : Int) :
    |x.toRat - z| * quantaPerUnit = (x.quanta - z * quantaPerUnit).natAbs := by
  have hunit : (0 : ℚ) ≤ quantaPerUnit := Nat.cast_nonneg _
  rw [Nat.cast_natAbs, Int.cast_abs, Int.cast_sub, Int.cast_mul, quanta_eq_toRat_mul,
    Int.cast_natCast, ← sub_mul, abs_mul, abs_of_nonneg hunit]

/-- Distances `|x.toRat - z|` from an integer are compared in quanta. -/
theorem abs_toRat_sub_le_iff (x y : Binary64) (z : Int) :
    |x.toRat - z| ≤ |y.toRat - z| ↔
      (x.quanta - z * quantaPerUnit).natAbs ≤ (y.quanta - z * quantaPerUnit).natAbs := by
  have hunit : (0 : ℚ) < quantaPerUnit := Nat.cast_pos.2 quantaPerUnit_pos
  rw [← mul_le_mul_iff_left₀ hunit, abs_toRat_sub_mul, abs_toRat_sub_mul, Nat.cast_le]

/-- Distances `|x.toRat - z|` from an integer are equal if they are so in quanta. -/
theorem abs_toRat_sub_eq_iff (x y : Binary64) (z : Int) :
    |x.toRat - z| = |y.toRat - z| ↔
      (x.quanta - z * quantaPerUnit).natAbs = (y.quanta - z * quantaPerUnit).natAbs := by
  rw [le_antisymm_iff, abs_toRat_sub_le_iff, abs_toRat_sub_le_iff, le_antisymm_iff]

/-- `x.fraction % 2 = x.rank % 2`: a block has an even number of ranks. -/
theorem fraction_mod_two (x : Binary64) : x.fraction % 2 = x.rank % 2 := by
  rw [rank_eq, blockSize]
  omega

/-- No `y.toRat` is nearer to `z` than `(ofInt z).toRat`. If a different one is equally near,
`ofInt z` has an even fraction and `y` an odd one. -/
theorem toRat_ofInt_isNearest {z : Int} (hfinite : (ofInt z).exponent < 2047) (y : Binary64) :
    |(ofInt z).toRat - z| ≤ |y.toRat - z| ∧
      (|y.toRat - z| = |(ofInt z).toRat - z| → y.toRat ≠ (ofInt z).toRat →
        (ofInt z).fraction % 2 = 0 ∧ y.fraction % 2 = 1) := by
  have hrank : (ofInt z).rank = nearestRank (z * quantaPerUnit).natAbs 1 := by
    rw [rank_ofInt, Int.natAbs_mul, Int.natAbs_natCast]
  have hquanta : (ofInt z).quanta = roundedQuanta (z * quantaPerUnit) := quanta_ofQuanta false _
  rw [← rank_lt_infinityRank_iff, hrank] at hfinite
  obtain ⟨hnearest, htie⟩ := roundedQuanta_isNearest hfinite y
  rw [abs_toRat_sub_le_iff, abs_toRat_sub_eq_iff, fraction_mod_two, fraction_mod_two, hrank,
    hquanta]
  refine ⟨hnearest, fun heq hne => htie heq fun hsame => ?_⟩
  rw [← hquanta] at hsame
  refine hne (le_antisymm ?_ ?_)
  · exact (quanta_le_iff _ _).1 hsame.le
  · exact (quanta_le_iff _ _).1 hsame.ge

/-- **An integer is converted to the nearest number**: `(ofInt z).IsNearestTo z`, if that is
finite. -/
theorem ofInt_isNearestTo {z : Int} (hfinite : (ofInt z).exponent < 2047) :
    (ofInt z).IsNearestTo z where
  finite := hfinite
  nearest y _ := (toRat_ofInt_isNearest hfinite y).1
  even_of_tie y _ heq hne := ((toRat_ofInt_isNearest hfinite y).2 heq hne).1

/-- **There is no other nearest number** than `ofInt z`: of two that are equally near one has an odd
fraction. -/
theorem IsNearestTo.toRat_eq {x : Binary64} {z : Int} (hx : x.IsNearestTo z)
    (hfinite : (ofInt z).exponent < 2047) : x.toRat = (ofInt z).toRat := by
  by_contra hne
  have heq : |x.toRat - z| = |(ofInt z).toRat - z| :=
    le_antisymm (hx.nearest _ hfinite) (toRat_ofInt_isNearest hfinite x).1
  have hodd := ((toRat_ofInt_isNearest hfinite x).2 heq hne).2
  have heven := hx.even_of_tie _ hfinite heq.symm (Ne.symm hne)
  omega

/-- `IsExact z` for `|z| ≤ 2 ^ 53`. -/
theorem isExact_of_abs_le {z : Int} (hz : |z| ≤ 2 ^ 53) : IsExact z := by
  rw [Int.abs_eq_natAbs] at hz
  rcases Nat.lt_or_eq_of_le (show z.natAbs ≤ 2 ^ 53 by omega) with hlt | heq
  · exact isExact_of_natAbs_eq (n := z.natAbs) (s := 0) (by rw [Nat.pow_zero, Nat.mul_one]) hlt
      (by decide)
  · exact isExact_of_natAbs_eq (n := 1) (s := 53) (by rw [heq, Nat.one_mul]) (by decide)
      (by decide)

end Binary64

namespace Word

/-! ## The numbers of words -/

/-- **A word is converted to the number nearest to its value**: `w.toNumber.IsNearestTo w.value`. -/
theorem toNumber_isNearestTo_value (w : Word) : w.toNumber.IsNearestTo w.value :=
  Binary64.ofInt_isNearestTo (exponent_toNumber_lt w)

/-- Halfway between two numbers the even one is taken, which is below `2^53 + 1` and above
`2^53 + 3`. -/
example : (ofInt .unsigned (2 ^ 53 + 1)).toNumber = (ofInt .unsigned (2 ^ 53)).toNumber ∧
    (ofInt .unsigned (2 ^ 53 + 3)).toNumber = (ofInt .unsigned (2 ^ 53 + 4)).toNumber := by
  decide +kernel

/-- `w.toNumber` is never the negative zero, which has its sign bit set and is not below zero. -/
theorem toNumber_ne_negative_zero (w : Word) : w.toNumber ≠ Binary64.zero.neg := by
  intro h
  have hsign := Binary64.signBit_ofInt_iff w.value
  have hzero : Binary64.zero.neg.signBit = true := by decide
  rw [← toNumber, h, Binary64.toRat_neg, Binary64.toRat_zero, neg_zero] at hsign
  exact absurd (hsign.1 hzero) (lt_irrefl 0)

/-- **Conversion respects the order of words**: `a.compare b ≠ .gt` gives
`a.toNumber.le b.toNumber`, whatever their tags. -/
theorem toNumber_le_of_compare_ne_gt {a b : Word} (h : a.compare b ≠ .gt) :
    a.toNumber.le b.toNumber = true := by
  have hvalue : a.value ≤ b.value := by
    rwa [Ne, compare_eq_gt_iff, Int.not_lt] at h
  rw [Binary64.le_iff (Binary64.isNaN_of_exponent_lt (exponent_toNumber_lt a))
    (Binary64.isNaN_of_exponent_lt (exponent_toNumber_lt b))]
  exact Binary64.toRat_ofInt_mono hvalue

/-- **What a word is converted to**: `w.toNumber` is the number nearest to `w.value`, halfway cases
going to the even fraction, and no number of another value is that. It is finite, no negative zero,
and `w.value` itself up to `2^53`. Words are converted in the order of `compare`, over any mix of
tags. -/
theorem toNumber_rounds_to_nearest :
    (∀ w : Word, w.toNumber.IsNearestTo w.value ∧
      (∀ x : Binary64, x.IsNearestTo w.value → x.toRat = w.toNumber.toRat) ∧
      w.toNumber.isNaN = false ∧ w.toNumber.isInfinite = false ∧
      w.toNumber ≠ Binary64.zero.neg ∧
      (|w.value| ≤ 2 ^ 53 → w.toNumber.toRat = w.value)) ∧
    ∀ a b : Word, a.compare b ≠ .gt → a.toNumber.le b.toNumber = true := by
  constructor
  · intro w
    have hfinite := exponent_toNumber_lt w
    refine ⟨toNumber_isNearestTo_value w, fun x hx => hx.toRat_eq hfinite,
      Binary64.isNaN_of_exponent_lt hfinite, ?_, toNumber_ne_negative_zero w, ?_⟩
    · refine Bool.eq_false_iff.2 fun hinf => ?_
      exact hfinite.ne ((Binary64.isInfinite_iff _).1 hinf).1
    · intro hvalue
      exact Binary64.toRat_ofInt (Binary64.isExact_of_abs_le hvalue)
  · intro a b h
    exact toNumber_le_of_compare_ne_gt h

/-- The signed `-2^53` keeps its value, and the greatest signed word, which is rounded up to `2^63`,
does not pass the unsigned `2^63`. -/
theorem toNumber_rounds_to_nearest_across_tags :
    (|(ofInt .signed (-2 ^ 53)).value| ≤ 2 ^ 53 ∧
      (ofInt .signed (-2 ^ 53)).toNumber.toRat = (ofInt .signed (-2 ^ 53)).value) ∧
    (maxValue.compare minValue.toUnsigned ≠ .gt ∧
      maxValue.toNumber.le minValue.toUnsigned.toNumber = true) := by
  have hvalue : |(ofInt .signed (-2 ^ 53)).value| ≤ 2 ^ 53 := by decide
  have horder : maxValue.compare minValue.toUnsigned ≠ .gt := by decide
  exact ⟨⟨hvalue, (toNumber_rounds_to_nearest.1 _).2.2.2.2.2 hvalue⟩,
    horder, toNumber_rounds_to_nearest.2 _ _ horder⟩

end Word

end TaggedWord
