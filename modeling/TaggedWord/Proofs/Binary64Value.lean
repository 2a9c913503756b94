import TaggedWord.Number.Binary64
import Mathlib.Algebra.Order.Field.Power
import Mathlib.Data.Rat.Floor
import Mathlib.Order.Monotone.Basic
import Mathlib.Tactic.NormNum
import Mathlib.Tactic.Ring

/-! # The rational value of a floating-point number

A pattern consists of a sign bit, eleven bits of exponent and 52 bits of fraction, from which the
value of a finite number is read off (`Binary64.toRat`). Counted in quanta it is the whole number
that all comparisons and roundings are made on (`quanta_eq_toRat_mul`).

* **`Binary64.exponent`**, **`Binary64.fraction`** — the fields of a pattern, with the numbers that
  are not finite in terms of them.
* **`Binary64.toRat`** — the value of a finite number.
* **`quantaOfRank_strictMono`** — magnitudes grow with their ranks.
* **`le_iff`**, **`lt_iff`**, **`wholePart_eq_floor`** — comparisons and whole parts on
  the values. -/

namespace TaggedWord.Binary64

/-! ## Fields -/

/-- The exponent field of a pattern. -/
def exponent (x : Binary64) : Nat := x.bits.toNat / 2 ^ 52 % 2 ^ 11

/-- The fraction field of a pattern. -/
def fraction (x : Binary64) : Nat := x.bits.toNat % 2 ^ 52

/-- The magnitude of a finite number: the fraction counts units of `2^-1074` if the exponent field
is zero, and otherwise has another bit in front and a unit that the exponent field gives. -/
def magnitude (x : Binary64) : ℚ :=
  if x.exponent = 0 then x.fraction * 2 ^ (-1074 : ℤ)
  else (2 ^ 52 + x.fraction) * 2 ^ ((x.exponent : ℤ) - 1075)

/-- **The value of a finite number.** -/
def toRat (x : Binary64) : ℚ := if x.signBit then -x.magnitude else x.magnitude

/-- `x.fraction < 2 ^ 52`: the field has 52 bits. -/
theorem fraction_lt (x : Binary64) : x.fraction < 2 ^ 52 := Nat.mod_lt _ (by decide)

/-- `x.rank = x.exponent * blockSize + x.fraction`: the rank of a number has its fields as
digits. -/
theorem rank_eq (x : Binary64) : x.rank = x.exponent * blockSize + x.fraction := by
  have hx := x.bits.isLt
  rw [rank, signWeight, exponent, blockSize, fraction]
  omega

/-- `x.isNaN` iff `x.exponent = 2047` and `x.fraction ≠ 0`. -/
theorem isNaN_iff (x : Binary64) : x.isNaN = true ↔ x.exponent = 2047 ∧ x.fraction ≠ 0 := by
  have hexponent : x.exponent < 2 ^ 11 := Nat.mod_lt _ (by decide)
  have hfraction := x.fraction_lt
  rw [isNaN, decide_eq_true_iff, rank_eq, infinityRank, blockSize]
  omega

/-- `x.isInfinite` iff `x.exponent = 2047` and `x.fraction = 0`. -/
theorem isInfinite_iff (x : Binary64) :
    x.isInfinite = true ↔ x.exponent = 2047 ∧ x.fraction = 0 := by
  have hfraction := x.fraction_lt
  rw [isInfinite, beq_iff_eq, rank_eq, infinityRank, blockSize]
  omega

/-- `x.rank < infinityRank ↔ x.exponent < 2047`: all other numbers are finite. -/
theorem rank_lt_infinityRank_iff (x : Binary64) : x.rank < infinityRank ↔ x.exponent < 2047 := by
  have hfraction := x.fraction_lt
  rw [rank_eq, infinityRank, blockSize]
  omega

/-- Every pattern is NaN, infinite, or has `x.exponent < 2047`. -/
theorem isNaN_or_isInfinite_or_lt (x : Binary64) :
    x.isNaN = true ∨ x.isInfinite = true ∨ x.exponent < 2047 := by
  have hexponent : x.exponent < 2 ^ 11 := Nat.mod_lt _ (by decide)
  rw [isNaN_iff, isInfinite_iff]
  omega

/-- `x.isNaN = false ↔ x.rank ≤ infinityRank`: a pattern is a number up to the rank of infinity. -/
theorem isNaN_eq_false_iff (x : Binary64) : x.isNaN = false ↔ x.rank ≤ infinityRank := by
  rw [isNaN, decide_eq_false_iff_not, Nat.not_lt]

/-- A pattern with `x.exponent < 2047` is a number. -/
theorem isNaN_of_exponent_lt {x : Binary64} (hx : x.exponent < 2047) : x.isNaN = false :=
  (isNaN_eq_false_iff x).2 (Nat.le_of_lt ((rank_lt_infinityRank_iff x).2 hx))

/-- An infinity is a number, not NaN. -/
theorem isNaN_of_isInfinite {x : Binary64} (hx : x.isInfinite = true) : x.isNaN = false :=
  (isNaN_eq_false_iff x).2 (Nat.le_of_eq (beq_iff_eq.1 hx))

/-! ## Quanta -/

/-- `0 < 1 <<< n`: powers of two written as shifts are positive. -/
theorem one_shiftLeft_pos (n : Nat) : 0 < 1 <<< n := by
  rw [Nat.one_shiftLeft]
  exact Nat.two_pow_pos n

/-- `1 <<< n` is `2 ^ n` among the rationals. -/
theorem cast_one_shiftLeft (n : Nat) : ((1 <<< n : Nat) : ℚ) = 2 ^ (n : ℤ) := by
  rw [Nat.one_shiftLeft, Nat.cast_pow, zpow_natCast, Nat.cast_ofNat]

/-- `quantaPerUnit` is positive, so values are divided by it. -/
theorem quantaPerUnit_pos : 0 < quantaPerUnit := one_shiftLeft_pos 1074

/-- `blockSize` is positive, so ranks are divided by it. -/
theorem blockSize_pos : 0 < blockSize := by decide

/-- `e` is the quotient of `e * blockSize + m` by `blockSize` for a fraction `m < blockSize`. -/
theorem div_blockSize {e m : Nat} (hm : m < blockSize) : (e * blockSize + m) / blockSize = e := by
  rw [Nat.mul_comm, Nat.mul_add_div blockSize_pos, Nat.div_eq_of_lt hm, Nat.add_zero]

/-- `quantaOfRank (e * blockSize + m)` is `m` for `e = 0` and `(blockSize + m) * 2 ^ (e - 1)` for
all other exponent fields. -/
theorem quantaOfRank_fields {e m : Nat} (hm : m < blockSize) :
    quantaOfRank (e * blockSize + m) = if e = 0 then m else (blockSize + m) * 2 ^ (e - 1) := by
  rw [quantaOfRank, Nat.shiftLeft_eq, div_blockSize hm, Nat.mul_add_mod_self_right,
    Nat.mod_eq_of_lt hm]
  by_cases he : e = 0
  · rw [if_pos he, he, Nat.zero_mul, Nat.zero_add, if_pos hm]
  · have hle : blockSize ≤ e * blockSize := Nat.le_mul_of_pos_left _ (Nat.pos_of_ne_zero he)
    rw [if_neg he, if_neg (by omega)]

/-- **The next magnitude**: `quantaOfRank (r + 1)` is one unit of its block,
`2 ^ (r / blockSize - 1)`, above `quantaOfRank r`. -/
theorem quantaOfRank_succ (r : Nat) :
    quantaOfRank (r + 1) = quantaOfRank r + 2 ^ (r / blockSize - 1) := by
  obtain ⟨e, m, hm, rfl⟩ : ∃ e m, m < blockSize ∧ r = e * blockSize + m :=
    ⟨r / blockSize, r % blockSize, Nat.mod_lt _ blockSize_pos, (Nat.div_add_mod' r _).symm⟩
  rw [div_blockSize hm, quantaOfRank_fields hm]
  obtain hlt | heq : m + 1 < blockSize ∨ m + 1 = blockSize := Nat.lt_or_eq_of_le hm
  · -- in the same block the fraction grows by one
    rw [Nat.add_assoc, quantaOfRank_fields hlt]
    by_cases he : e = 0
    · rw [if_pos he, if_pos he, he]
      rfl
    · rw [if_neg he, if_neg he, ← Nat.add_assoc, Nat.add_one_mul]
  · -- the next block starts at twice the power of two, with twice the unit
    have hnext : e * blockSize + m + 1 = (e + 1) * blockSize + 0 := by
      rw [Nat.add_assoc, heq, Nat.add_one_mul, Nat.add_zero]
    rw [hnext, quantaOfRank_fields blockSize_pos, if_neg (Nat.succ_ne_zero e), Nat.add_sub_cancel,
      Nat.add_zero]
    cases e with
    | zero =>
      rw [if_pos rfl, ← heq, pow_zero, Nat.mul_one]
    | succ k =>
      rw [if_neg (Nat.succ_ne_zero k), Nat.add_sub_cancel, ← Nat.add_one_mul, Nat.add_assoc,
        heq, pow_succ]
      ring

/-- **Magnitudes grow with their ranks**: `quantaOfRank` is strictly monotone. -/
theorem quantaOfRank_strictMono : StrictMono quantaOfRank :=
  strictMono_nat_of_lt_succ fun r => by
    rw [quantaOfRank_succ]
    exact Nat.lt_add_of_pos_right (Nat.two_pow_pos _)

/-- `x.quanta = quantaOfRank x.rank` where the sign bit is clear. -/
theorem quanta_of_signBit_eq_false {x : Binary64} (hx : x.signBit = false) :
    x.quanta = quantaOfRank x.rank := by
  rw [quanta, if_neg (by rw [hx]; exact Bool.false_ne_true)]

/-- No number lies between two neighbours: `x.quanta < z.quanta` gives `x.quanta ≤ y.quanta` for the
number `z` of the next rank after `y`. -/
theorem quanta_le_of_lt_next {x y z : Binary64} (hy : y.signBit = false) (hz : z.signBit = false)
    (hnext : z.rank = y.rank + 1) (hx : x.quanta < z.quanta) : x.quanta ≤ y.quanta := by
  rw [quanta_of_signBit_eq_false hz, hnext] at hx
  rw [quanta_of_signBit_eq_false hy]
  rw [quanta] at hx ⊢
  split
  · omega
  · rename_i hsign
    rw [if_neg hsign, Int.ofNat_lt, quantaOfRank_strictMono.lt_iff_lt] at hx
    exact Int.ofNat_le.2 (quantaOfRank_strictMono.monotone (Nat.le_of_lt_succ hx))

/-- `quantaOfRank x.rank = x.magnitude * quantaPerUnit`: the magnitude counted in quanta. -/
theorem quantaOfRank_eq_magnitude_mul (x : Binary64) :
    (quantaOfRank x.rank : ℚ) = x.magnitude * quantaPerUnit := by
  have hunit : (quantaPerUnit : ℚ) = 2 ^ ((1074 : ℕ) : ℤ) := cast_one_shiftLeft 1074
  rw [rank_eq, quantaOfRank_fields x.fraction_lt, magnitude, hunit]
  split
  · rw [mul_assoc, ← zpow_add₀ two_ne_zero]
    norm_num
  · rename_i he
    have hpow : ((x.exponent : ℤ) - 1075) + (1074 : ℕ) = (x.exponent - 1 : ℕ) := by omega
    rw [mul_assoc, ← zpow_add₀ two_ne_zero, hpow, zpow_natCast, Nat.cast_mul, Nat.cast_pow,
      blockSize]
    norm_num

/-- **The value in quanta**: `x.quanta = x.toRat * quantaPerUnit`. -/
theorem quanta_eq_toRat_mul (x : Binary64) : (x.quanta : ℚ) = x.toRat * quantaPerUnit := by
  rw [quanta, toRat]
  split
  · rw [Int.cast_neg, Int.cast_natCast, quantaOfRank_eq_magnitude_mul, neg_mul]
  · rw [Int.cast_natCast, quantaOfRank_eq_magnitude_mul]

/-! ## Rational values -/

/-- `x.neg.toRat = -x.toRat`. -/
@[simp] theorem toRat_neg (x : Binary64) : x.neg.toRat = -x.toRat := by
  have hunit : (quantaPerUnit : ℚ) ≠ 0 := Nat.cast_ne_zero.2 quantaPerUnit_pos.ne'
  have hneg := quanta_eq_toRat_mul x.neg
  rw [quanta_neg, Int.cast_neg, quanta_eq_toRat_mul, ← neg_mul] at hneg
  exact (mul_right_cancel₀ hunit hneg).symm

/-- `x.quanta ≤ y.quanta ↔ x.toRat ≤ y.toRat`: quanta are ordered as the values are. -/
theorem quanta_le_iff (x y : Binary64) : x.quanta ≤ y.quanta ↔ x.toRat ≤ y.toRat := by
  rw [← Int.cast_le (R := ℚ), quanta_eq_toRat_mul, quanta_eq_toRat_mul]
  exact mul_le_mul_iff_left₀ (Nat.cast_pos.2 quantaPerUnit_pos)

/-- **Numbers are compared by their values**: `x.le y ↔ x.toRat ≤ y.toRat` unless one is NaN. -/
theorem le_iff {x y : Binary64} (hx : x.isNaN = false) (hy : y.isNaN = false) :
    x.le y = true ↔ x.toRat ≤ y.toRat := by
  rw [le, hx, hy, Bool.not_false, Bool.true_and, Bool.true_and, decide_eq_true_iff, quanta_le_iff]

/-- `x.lt y ↔ x.toRat < y.toRat` unless one is NaN. -/
theorem lt_iff {x y : Binary64} (hx : x.isNaN = false) (hy : y.isNaN = false) :
    x.lt y = true ↔ x.toRat < y.toRat := by
  rw [lt, hx, hy, Bool.not_false, Bool.true_and, Bool.true_and, decide_eq_true_iff, ← Int.not_le,
    quanta_le_iff, not_le]

/-- `x.wholePart = ⌊x.toRat⌋` for a number that is not negative. -/
theorem wholePart_eq_floor {x : Binary64} (hx : 0 ≤ x.toRat) : (x.wholePart : ℤ) = ⌊x.toRat⌋ := by
  have hunit : (0 : ℚ) < quantaPerUnit := Nat.cast_pos.2 quantaPerUnit_pos
  have hvalue : x.toRat = x.quanta / (quantaPerUnit : ℕ) := by
    rw [quanta_eq_toRat_mul, mul_div_cancel_right₀ _ hunit.ne']
  have hquanta : 0 ≤ x.quanta := by
    rw [← Int.cast_nonneg_iff (R := ℚ), quanta_eq_toRat_mul]
    exact mul_nonneg hx hunit.le
  rw [hvalue, Rat.floor_intCast_div_natCast, wholePart, Int.natCast_ediv,
    Int.toNat_of_nonneg hquanta]

/-- `zero.toRat = 0`. -/
theorem toRat_zero : zero.toRat = 0 := by
  have hexponent : zero.exponent = 0 := by decide
  have hfraction : zero.fraction = 0 := by decide
  rw [toRat, if_neg (by decide), magnitude, hexponent, hfraction]
  norm_num

/-- A number with `x.fraction = 0` is a power of two: its magnitude is `2 ^ (x.exponent - 1023)`. -/
theorem magnitude_of_fraction_eq_zero {x : Binary64} (hexponent : x.exponent ≠ 0)
    (hfraction : x.fraction = 0) : x.magnitude = 2 ^ ((x.exponent : ℤ) - 1023) := by
  have hsplit : (x.exponent : ℤ) - 1023 = (52 : ℕ) + ((x.exponent : ℤ) - 1075) := by omega
  rw [magnitude, if_neg hexponent, hfraction, hsplit, zpow_add₀ two_ne_zero, zpow_natCast]
  norm_num

/-- The numbers with `x.exponent = 0` lie strictly between `-1` and `1`. -/
theorem toRat_mem_of_exponent_eq_zero {x : Binary64} (hx : x.exponent = 0) :
    -1 < x.toRat ∧ x.toRat < 1 := by
  have hfraction : (x.fraction : ℚ) < 2 ^ 52 := by exact_mod_cast x.fraction_lt
  have hlo : 0 ≤ x.magnitude := by
    rw [magnitude, if_pos hx]
    positivity
  have hhi : x.magnitude < 1 := by
    rw [magnitude, if_pos hx]
    calc
      (x.fraction : ℚ) * 2 ^ (-1074 : ℤ) < 2 ^ 52 * 2 ^ (-1074 : ℤ) :=
        mul_lt_mul_of_pos_right hfraction (by positivity)
      _ = 2 ^ (-1022 : ℤ) := by
        rw [← zpow_natCast, ← zpow_add₀ two_ne_zero]
        norm_num
      _ < 1 := zpow_lt_one_of_neg₀ one_lt_two (by decide)
  rw [toRat]
  split
  · constructor <;> linarith
  · constructor <;> linarith

/-- `2 ^ 64 ≤ x.magnitude` for the infinities: they are above every tag's range. -/
theorem le_magnitude_of_isInfinite {x : Binary64} (hx : x.isInfinite = true) :
    2 ^ 64 ≤ x.magnitude := by
  obtain ⟨hexponent, hfraction⟩ := (isInfinite_iff x).1 hx
  rw [magnitude_of_fraction_eq_zero (by omega) hfraction, hexponent, ← zpow_natCast]
  exact zpow_le_zpow_right₀ one_le_two (by decide)

/-- `twoPow63.toRat = 2 ^ 63`. -/
theorem toRat_twoPow63 : twoPow63.toRat = 2 ^ 63 := by
  have hexponent : twoPow63.exponent = 1086 := by decide
  rw [toRat, if_neg (by decide), magnitude_of_fraction_eq_zero (by decide) (by decide), hexponent]
  norm_num

/-- `twoPow64.toRat = 2 ^ 64`. -/
theorem toRat_twoPow64 : twoPow64.toRat = 2 ^ 64 := by
  have hexponent : twoPow64.exponent = 1087 := by decide
  rw [toRat, if_neg (by decide), magnitude_of_fraction_eq_zero (by decide) (by decide), hexponent]
  norm_num

end TaggedWord.Binary64
