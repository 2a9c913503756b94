import TaggedWord.Proofs.Rounding
import TaggedWord.Proofs.Wrapping
import TaggedWord.Word.Number

/-! # Words of floating-point numbers are saturated truncations

A number is cut toward zero and clamped to the range of the tag (`saturation`). The signed upper end
is tested on the rounded sum of the number with one, and a negative number is converted through its
negation; neither shows in the result.

* **`truncate`** — a rational number cut toward zero.
* **`twoPow63_le_add_one_iff`** — the rounded test decides as an exact comparison with `2^63` does.
* **`Word.ofNumberWithin`** — the conversion with a bound on its recursive calls, of which one is
  always enough (`ofNumberWithin_one`). -/

namespace TaggedWord

/-! ## Truncation -/

/-- **A rational number cut toward zero.** -/
def truncate (q : ℚ) : ℤ := if 0 ≤ q then ⌊q⌋ else ⌈q⌉

/-- `truncate q = ⌊q⌋` from zero on. -/
theorem truncate_of_nonneg {q : ℚ} (hq : 0 ≤ q) : truncate q = ⌊q⌋ := if_pos hq

/-- `truncate q = ⌈q⌉` up to zero, where both roundings agree. -/
theorem truncate_of_nonpos {q : ℚ} (hq : q ≤ 0) : truncate q = ⌈q⌉ := by
  rcases hq.lt_or_eq with hlt | rfl
  · exact if_neg (not_le.2 hlt)
  · rw [truncate, if_pos le_rfl, Int.floor_zero, Int.ceil_zero]

/-- `truncate z = z` for integers. -/
theorem truncate_intCast (z : ℤ) : truncate z = z := by
  rw [truncate, Int.floor_intCast, Int.ceil_intCast, ite_self]

/-- `truncate (-q) = -truncate q`. -/
theorem truncate_neg (q : ℚ) : truncate (-q) = -truncate q := by
  rcases le_total 0 q with hq | hq
  · rw [truncate_of_nonneg hq, truncate_of_nonpos (neg_nonpos.2 hq), Int.ceil_neg]
  · rw [truncate_of_nonpos hq, truncate_of_nonneg (neg_nonneg.2 hq), Int.floor_neg]

/-- `z ≤ truncate q` for every integer `z ≤ q`. -/
theorem le_truncate {z : ℤ} {q : ℚ} (h : (z : ℚ) ≤ q) : z ≤ truncate q := by
  rw [truncate]
  split
  · exact Int.le_floor.2 h
  · exact Int.cast_le.1 (h.trans (Int.le_ceil q))

/-- `truncate q ≤ z` for every integer `z ≥ q`. -/
theorem truncate_le {z : ℤ} {q : ℚ} (h : q ≤ z) : truncate q ≤ z := by
  rw [← neg_le_neg_iff, ← truncate_neg]
  exact le_truncate (by rw [Int.cast_neg]; exact neg_le_neg h)

/-- `truncate` is monotone. -/
theorem truncate_mono {p q : ℚ} (h : p ≤ q) : truncate p ≤ truncate q := by
  rcases le_total 0 p with hp | hp
  · rw [truncate_of_nonneg hp, truncate_of_nonneg (hp.trans h)]
    exact Int.floor_mono h
  · rcases le_total 0 q with hq | hq
    · -- zero lies between the two numbers, and it is not cut
      have hlo : truncate p ≤ 0 := truncate_le (by rwa [Int.cast_zero])
      exact hlo.trans (le_truncate (by rwa [Int.cast_zero]))
    · rw [truncate_of_nonpos hp, truncate_of_nonpos hq]
      exact Int.ceil_mono h

/-- `truncate q < z` for every positive integer `z > q`. -/
theorem truncate_lt {z : ℤ} {q : ℚ} (hz : 0 < z) (h : q < z) : truncate q < z := by
  rw [truncate]
  split
  · exact Int.floor_lt.2 h
  · rename_i hq
    exact (Int.ceil_le.2 (by rw [Int.cast_zero]; exact (not_le.1 hq).le)).trans_lt hz

/-- `truncate q = 0` between minus one and one. -/
theorem truncate_eq_zero {q : ℚ} (hlo : -1 < q) (hhi : q < 1) : truncate q = 0 := by
  have habove : truncate q < 1 := truncate_lt Int.one_pos (by rwa [Int.cast_one])
  have hbelow : truncate (-q) < 1 :=
    truncate_lt Int.one_pos (by rw [Int.cast_one]; exact neg_lt.1 hlo)
  rw [truncate_neg] at hbelow
  omega

/-- The whole part of a number up to `tag.least` is clamped to `tag.least`. -/
theorem Signedness.clamp_truncate_of_le_least {tag : Signedness} {q : ℚ} (h : q ≤ tag.least) :
    tag.clamp (truncate q) = tag.least :=
  clamp_of_le_least (truncate_le h)

/-- The whole part of a number from `tag.greatest` on is clamped to `tag.greatest`. -/
theorem Signedness.clamp_truncate_of_greatest_le {tag : Signedness} {q : ℚ}
    (h : tag.greatest ≤ q) : tag.clamp (truncate q) = tag.greatest :=
  clamp_of_greatest_le (le_truncate h)

/-- **The numbers that a tag need not clamp.** -/
def Signedness.Covers (tag : Signedness) (q : ℚ) : Prop :=
  match tag with
  | .signed => -2 ^ 63 < q ∧ q < 2 ^ 63
  | .unsigned => 0 ≤ q ∧ q < 2 ^ 64

/-- The whole part of a number that `tag` covers is in its range. -/
theorem Signedness.Covers.inRange_truncate {tag : Signedness} {q : ℚ} (h : tag.Covers q) :
    tag.InRange (truncate q) := by
  cases tag with
  | signed =>
    exact ⟨le_truncate (by push_cast; exact h.1.le),
      truncate_lt (by decide) (by push_cast; exact h.2)⟩
  | unsigned =>
    exact ⟨le_truncate (by push_cast; exact h.1),
      truncate_lt (by decide) (by push_cast; exact h.2)⟩

/-- `tag.Covers` the negation of a negative number that it covers: only a signed word can have a
negative value. -/
theorem Signedness.Covers.neg {tag : Signedness} {q : ℚ} (h : tag.Covers q) (hq : q < 0) :
    tag.Covers (-q) := by
  cases tag with
  | signed => exact ⟨neg_lt_neg h.2, neg_lt.1 h.1⟩
  | unsigned => exact absurd h.1 (not_le.2 hq)

/-! ## The rounded test -/

namespace Binary64

/-- The greatest number below `2^63`, which is `2^63 - 1024`. -/
def belowTwoPow63 : Binary64 := ⟨0x43DFFFFFFFFFFFFF⟩

/-- No number lies between `belowTwoPow63` and `twoPow63`. -/
theorem quanta_le_belowTwoPow63 {x : Binary64} (hx : x.quanta < twoPow63.quanta) :
    x.quanta ≤ belowTwoPow63.quanta :=
  quanta_le_of_lt_next (by decide) (by decide) (by decide) hx

/-- The rounded sum of `belowTwoPow63` and one is `belowTwoPow63` again. -/
theorem roundedQuanta_belowTwoPow63_add_one :
    roundedQuanta (belowTwoPow63.quanta + one.quanta) = belowTwoPow63.quanta := by
  decide +kernel

/-- `belowTwoPow63` is below `twoPow63`. -/
theorem belowTwoPow63_lt : belowTwoPow63.quanta < twoPow63.quanta := by decide +kernel

/-- **The rounded test decides as the exact one**: `twoPow63.le (x.add one)` holds exactly for
`2 ^ 63 ≤ x.toRat`. -/
theorem twoPow63_le_add_one_iff {x : Binary64} (hx : x.isNaN = false) :
    twoPow63.le (x.add one) = true ↔ 2 ^ 63 ≤ x.toRat := by
  have hbound : twoPow63.isNaN = false := by decide
  rw [← toRat_twoPow63, ← quanta_le_iff]
  rcases ((isNaN_eq_false_iff x).1 hx).lt_or_eq with hfinite | hinfinite
  · obtain ⟨hnan, hsum⟩ := quanta_add_of_finite hfinite (y := one) (by decide)
    rw [le_iff hbound hnan, ← quanta_le_iff, hsum]
    constructor
    · -- below `2^63` the rounded sum stays below it, as that of the greatest such number does
      intro h
      by_contra hlt
      have hle := quanta_le_belowTwoPow63 (Int.not_le.1 hlt)
      have hround := roundedQuanta_mono (Int.add_le_add_right hle one.quanta)
      rw [roundedQuanta_belowTwoPow63_add_one] at hround
      exact absurd (h.trans hround) (Int.not_le.2 belowTwoPow63_lt)
    · -- from `2^63` on the exact sum is above it, and `2^63` itself is not rounded
      intro h
      have hone : 0 ≤ one.quanta := by decide +kernel
      rw [← roundedQuanta_quanta hbound]
      exact roundedQuanta_mono (by omega)
  · -- an infinity is its own sum with one
    have hsum : x.add one = x := by
      have hinf : x.isInfinite = true := beq_iff_eq.2 hinfinite
      have hone : one.isNaN = false := by decide
      have hone' : one.isInfinite = false := by decide
      simp [add, hx, hinf, hone, hone']
    rw [hsum, le_iff hbound hx, ← quanta_le_iff]

/-- The rounded test holds for the positive infinity and fails for the negative one. -/
theorem twoPow63_le_add_one_of_isInfinite {x : Binary64} (hx : x.isInfinite = true) :
    twoPow63.le (x.add one) = !x.signBit := by
  have hlarge := le_magnitude_of_isInfinite hx
  rw [Bool.eq_iff_iff, twoPow63_le_add_one_iff (isNaN_of_isInfinite hx), toRat]
  cases x.signBit with
  | false => exact iff_of_true (by rw [if_neg Bool.false_ne_true]; linarith) rfl
  | true => exact iff_of_false (by rw [if_pos rfl]; linarith) Bool.false_ne_true

end Binary64

/-! ## Saturation -/

namespace Word

/-- **The saturated truncation of a number**: its whole part clamped to the range of the tag, and
zero for NaN. -/
def saturation (tag : Signedness) (x : Binary64) : Word :=
  if x.isNaN then ⟨0, tag⟩ else ofInt tag (tag.clamp (truncate x.toRat))

/-- `saturation tag x` is the word of the whole part if `tag` covers the number. -/
theorem saturation_of_covers {tag : Signedness} {x : Binary64} (hx : x.isNaN = false)
    (h : tag.Covers x.toRat) : saturation tag x = ofInt tag (truncate x.toRat) := by
  rw [saturation, hx, if_neg Bool.false_ne_true, h.inRange_truncate.clamp_eq]

/-- `saturated? .unsigned` settles the numbers below zero and those from `2 ^ 64` on. -/
theorem saturated?_unsigned {x : Binary64} (hx : x.isNaN = false) :
    saturated? .unsigned x
      = if x.toRat < 0 then some unsignedZero
        else if 2 ^ 64 ≤ x.toRat then some maxUnsignedValue else none := by
  have hlo := Binary64.lt_iff hx (y := .zero) (by decide)
  have hhi := Binary64.le_iff (x := .twoPow64) (by decide) hx
  rw [Binary64.toRat_zero] at hlo
  rw [Binary64.toRat_twoPow64] at hhi
  simp only [saturated?, hx, hlo, hhi, Bool.false_eq_true, if_false]

/-- `saturated? .signed` settles the numbers up to `-2 ^ 63` and those from `2 ^ 63` on. -/
theorem saturated?_signed {x : Binary64} (hx : x.isNaN = false) :
    saturated? .signed x
      = if x.toRat ≤ -2 ^ 63 then some minValue
        else if 2 ^ 63 ≤ x.toRat then some maxValue else none := by
  have hlo := Binary64.le_iff hx (y := Binary64.twoPow63.neg) (by decide)
  rw [Binary64.toRat_neg, Binary64.toRat_twoPow63] at hlo
  simp only [saturated?, hx, hlo, Binary64.twoPow63_le_add_one_iff hx, Bool.false_eq_true, if_false]

/-- `saturated? tag x` settles no number that `tag` covers. -/
theorem saturated?_of_covers {tag : Signedness} {x : Binary64} (hx : x.isNaN = false)
    (h : tag.Covers x.toRat) : saturated? tag x = none := by
  cases tag with
  | signed => rw [saturated?_signed hx, if_neg (not_le.2 h.1), if_neg (not_le.2 h.2)]
  | unsigned => rw [saturated?_unsigned hx, if_neg (not_lt.2 h.1), if_neg (not_le.2 h.2)]

/-- `saturated? tag x` settles all other numbers as the ends of the range. -/
theorem saturated?_of_not_covers {tag : Signedness} {x : Binary64} (hx : x.isNaN = false)
    (h : ¬tag.Covers x.toRat) : saturated? tag x = some (saturation tag x) := by
  rw [saturation, hx, if_neg Bool.false_ne_true]
  cases tag with
  | signed =>
    rw [saturated?_signed hx]
    by_cases hlo : x.toRat ≤ -2 ^ 63
    · have hleast : x.toRat ≤ Signedness.signed.least := by
        rw [Signedness.least]
        push_cast
        exact hlo
      rw [if_pos hlo, Signedness.clamp_truncate_of_le_least hleast]
      decide
    · have hhi : 2 ^ 63 ≤ x.toRat := not_lt.1 fun hlt => h ⟨not_le.1 hlo, hlt⟩
      have hgreatest : Signedness.signed.greatest ≤ x.toRat := by
        rw [Signedness.greatest]
        push_cast
        linarith
      rw [if_neg hlo, if_pos hhi, Signedness.clamp_truncate_of_greatest_le hgreatest]
      decide
  | unsigned =>
    rw [saturated?_unsigned hx]
    by_cases hlo : x.toRat < 0
    · have hleast : x.toRat ≤ Signedness.unsigned.least := by
        rw [Signedness.least, Int.cast_zero]
        exact hlo.le
      rw [if_pos hlo, Signedness.clamp_truncate_of_le_least hleast]
      decide
    · have hhi : 2 ^ 64 ≤ x.toRat := not_lt.1 fun hlt => h ⟨not_lt.1 hlo, hlt⟩
      have hgreatest : Signedness.unsigned.greatest ≤ x.toRat := by
        rw [Signedness.greatest]
        push_cast
        linarith
      rw [if_neg hlo, if_pos hhi, Signedness.clamp_truncate_of_greatest_le hgreatest]
      decide

/-! ## Recursive calls -/

/-- **The conversion with a bound on its recursive calls.** There is no result if more are
needed. -/
def ofNumberWithin (tag : Signedness) (calls : Nat) (x : Binary64) : Option Word :=
  match saturated? tag x with
  | some w => some w
  | none =>
    if x.lt .zero then
      match calls with
      | 0 => none
      | rest + 1 => (ofNumberWithin tag rest x.neg).map neg
    else some ⟨BitVec.ofNat 64 x.wholePart, tag⟩

/-- `ofNumberWithin` gives the result of `ofNumber` if it gives one. -/
theorem ofNumber_eq_of_ofNumberWithin {tag : Signedness} {calls : Nat} {x : Binary64} {w : Word}
    (h : ofNumberWithin tag calls x = some w) : ofNumber tag x = w := by
  -- the recursion with a bound takes the same branches as the one without, as long as it has calls
  fun_induction ofNumberWithin tag calls x generalizing w with
  | case1 calls x v hsat =>
    rw [ofNumber, hsat]
    exact Option.some.inj h
  | case2 x hsat hneg => exact nomatch h
  | case3 x hsat hneg rest ih =>
    obtain ⟨v, hv, rfl⟩ := Option.map_eq_some_iff.1 h
    rw [ofNumber, hsat]
    simp only [hneg, if_true, ih hv]
  | case4 calls x hsat hneg =>
    rw [ofNumber, hsat]
    simp only [hneg, Bool.false_eq_true, if_false]
    exact Option.some.inj h

/-- `ofNumberWithin` settles NaN with no recursive call. -/
theorem ofNumberWithin_of_isNaN {tag : Signedness} {x : Binary64} (calls : Nat)
    (hx : x.isNaN = true) : ofNumberWithin tag calls x = some (saturation tag x) := by
  rw [ofNumberWithin.eq_def, saturated?.eq_def, saturation, if_pos hx, if_pos hx]
  rfl

/-- `ofNumberWithin` settles the numbers that `tag` does not cover with no recursive call. -/
theorem ofNumberWithin_of_not_covers {tag : Signedness} {x : Binary64} (calls : Nat)
    (hx : x.isNaN = false) (hcovers : ¬tag.Covers x.toRat) :
    ofNumberWithin tag calls x = some (saturation tag x) := by
  rw [ofNumberWithin.eq_def, saturated?_of_not_covers hx hcovers]

/-- `ofNumberWithin` needs no recursive call on a number that is not negative. -/
theorem ofNumberWithin_of_nonneg {tag : Signedness} {x : Binary64} (calls : Nat)
    (hx : x.isNaN = false) (hcovers : tag.Covers x.toRat) (h : 0 ≤ x.toRat) :
    ofNumberWithin tag calls x = some (saturation tag x) := by
  have hwhole : (⟨BitVec.ofNat 64 x.wholePart, tag⟩ : Word) = ofInt tag (truncate x.toRat) := by
    rw [truncate_of_nonneg h, ← Binary64.wholePart_eq_floor h, ofInt, BitVec.ofInt_natCast]
  have hlt : ¬x.lt .zero = true := by
    rw [Binary64.lt_iff hx (by decide), Binary64.toRat_zero]
    exact not_lt.2 h
  rw [ofNumberWithin.eq_def, saturated?_of_covers hx hcovers, saturation_of_covers hx hcovers,
    ← hwhole]
  exact if_neg hlt

/-- `ofNumberWithin` needs one call on a negative number: its negation is covered as well and needs
none. -/
theorem ofNumberWithin_of_neg {tag : Signedness} {x : Binary64} (calls : Nat)
    (hx : x.isNaN = false) (hcovers : tag.Covers x.toRat) (h : x.toRat < 0) :
    ofNumberWithin tag (calls + 1) x = some (saturation tag x) := by
  have hlt : x.lt .zero = true := by
    rwa [Binary64.lt_iff hx (by decide), Binary64.toRat_zero]
  have hx' : x.neg.isNaN = false := by rwa [Binary64.isNaN_neg]
  have hcovers' : tag.Covers x.neg.toRat := by
    rw [Binary64.toRat_neg]
    exact hcovers.neg h
  have hnonneg : 0 ≤ x.neg.toRat := by
    rw [Binary64.toRat_neg]
    exact neg_nonneg.2 h.le
  rw [ofNumberWithin.eq_def, saturated?_of_covers hx hcovers]
  simp only [hlt, if_true]
  -- truncation commutes with negation, so the word of the negation is the negated word
  rw [ofNumberWithin_of_nonneg calls hx' hcovers' hnonneg, saturation_of_covers hx' hcovers',
    saturation_of_covers hx hcovers, Option.map_some, neg_ofInt, Binary64.toRat_neg, truncate_neg,
    neg_neg]

/-- **One recursive call is always enough**: `ofNumberWithin tag 1 x` is the saturated
truncation. -/
theorem ofNumberWithin_one (tag : Signedness) (x : Binary64) :
    ofNumberWithin tag 1 x = some (saturation tag x) := by
  by_cases hnan : x.isNaN = true
  · exact ofNumberWithin_of_isNaN 1 hnan
  · have hx : x.isNaN = false := Bool.eq_false_iff.2 hnan
    by_cases hcovers : tag.Covers x.toRat
    · rcases le_or_gt 0 x.toRat with hnonneg | hneg
      · exact ofNumberWithin_of_nonneg 1 hx hcovers hnonneg
      · exact ofNumberWithin_of_neg 0 hx hcovers hneg
    · exact ofNumberWithin_of_not_covers 1 hx hcovers

/-- **The word of a number is its saturated truncation**: `ofNumber tag x = saturation tag x`. -/
theorem ofNumber_eq_saturation (tag : Signedness) (x : Binary64) :
    ofNumber tag x = saturation tag x :=
  ofNumber_eq_of_ofNumberWithin (ofNumberWithin_one tag x)

/-! ## The result for each kind of number -/

/-- `ofNumber tag x` is zero under that tag for NaN. -/
theorem ofNumber_of_isNaN (tag : Signedness) {x : Binary64} (hx : x.isNaN = true) :
    ofNumber tag x = ⟨0, tag⟩ := by
  rw [ofNumber_eq_saturation, saturation, if_pos hx]

/-- `ofNumber tag x` is the word of `tag.clamp (truncate x.toRat)` for all numbers. -/
theorem ofNumber_eq_ofInt_clamp (tag : Signedness) {x : Binary64} (hx : x.isNaN = false) :
    ofNumber tag x = ofInt tag (tag.clamp (truncate x.toRat)) := by
  rw [ofNumber_eq_saturation, saturation, hx, if_neg Bool.false_ne_true]

/-- **The word of a number that is an integer** `z` is that of `tag.clamp z`. -/
theorem ofNumber_of_toRat_eq (tag : Signedness) {x : Binary64} {z : Int}
    (hfinite : x.exponent < 2047) (hx : x.toRat = z) :
    ofNumber tag x = ofInt tag (tag.clamp z) := by
  rw [ofNumber_eq_ofInt_clamp tag (Binary64.isNaN_of_exponent_lt hfinite), hx, truncate_intCast]

/-- `ofNumber tag x` has the tag that was asked for, and the clamped whole part as its value. -/
theorem value_ofNumber (tag : Signedness) {x : Binary64} (hx : x.isNaN = false) :
    (ofNumber tag x).tag = tag ∧ (ofNumber tag x).value = tag.clamp (truncate x.toRat) := by
  rw [ofNumber_eq_ofInt_clamp tag hx]
  exact ⟨rfl, value_ofInt (tag.inRange_clamp _)⟩

/-- `ofNumber` cuts the zeros and the subnormal numbers to zero. -/
theorem ofNumber_of_exponent_eq_zero (tag : Signedness) {x : Binary64} (hx : x.exponent = 0) :
    ofNumber tag x = ⟨0, tag⟩ := by
  have hnan : x.isNaN = false := by
    rw [Bool.eq_false_iff, Ne, Binary64.isNaN_iff, hx]
    exact fun h => absurd h.1 (by decide)
  have htruncate : truncate x.toRat = 0 := by
    obtain ⟨hlo, hhi⟩ := Binary64.toRat_mem_of_exponent_eq_zero hx
    exact truncate_eq_zero hlo hhi
  have hzero : tag.InRange 0 := by cases tag <;> decide
  rw [ofNumber_eq_ofInt_clamp tag hnan, htruncate, hzero.clamp_eq]
  rfl

/-- The infinities are clamped to `tag.least` and `tag.greatest`. -/
theorem clamp_truncate_of_isInfinite (tag : Signedness) {x : Binary64} (hx : x.isInfinite = true) :
    tag.clamp (truncate x.toRat) = if x.signBit then tag.least else tag.greatest := by
  have hlarge := Binary64.le_magnitude_of_isInfinite hx
  rw [Binary64.toRat]
  split
  · have hleast : (-2 ^ 64 : ℚ) ≤ tag.least := by cases tag <;> norm_num [Signedness.least]
    exact Signedness.clamp_truncate_of_le_least (by linarith)
  · have hgreatest : (tag.greatest : ℚ) ≤ 2 ^ 64 := by
      cases tag <;> norm_num [Signedness.greatest]
    exact Signedness.clamp_truncate_of_greatest_le (by linarith)

/-- **The word of a number is its whole part, clamped to the range of the tag**:
`(ofNumber tag x).value = tag.clamp (truncate x.toRat)`. NaN gives zero, the infinities give the
ends of the range, and the zeros and subnormal numbers give zero. The rounded sum `x.add .one`
reaches `2^63` exactly for the numbers that do so themselves, and no more than one recursive call is
made. -/
theorem ofNumber_truncates_and_saturates (tag : Signedness) (x : Binary64) :
    (x.exponent = 2047 → x.fraction ≠ 0 → ofNumber tag x = ⟨0, tag⟩) ∧
    (x.exponent = 2047 → x.fraction = 0 →
      (ofNumber tag x).tag = tag ∧
      (ofNumber tag x).value = (if x.signBit then tag.least else tag.greatest) ∧
      Binary64.twoPow63.le (x.add .one) = !x.signBit) ∧
    (x.exponent < 2047 →
      (ofNumber tag x).tag = tag ∧
      (ofNumber tag x).value = tag.clamp (truncate x.toRat) ∧
      (Binary64.twoPow63.le (x.add .one) = true ↔ 2 ^ 63 ≤ x.toRat)) ∧
    (x.exponent = 0 → ofNumber tag x = ⟨0, tag⟩) ∧
    ofNumberWithin tag 1 x = some (ofNumber tag x) := by
  refine ⟨fun hexponent hfraction => ?_, fun hexponent hfraction => ?_, fun hexponent => ?_,
    ofNumber_of_exponent_eq_zero tag, ?_⟩
  · exact ofNumber_of_isNaN tag ((Binary64.isNaN_iff x).2 ⟨hexponent, hfraction⟩)
  · have hinf : x.isInfinite = true := (Binary64.isInfinite_iff x).2 ⟨hexponent, hfraction⟩
    have hnan : x.isNaN = false := Binary64.isNaN_of_isInfinite hinf
    obtain ⟨htag, hvalue⟩ := value_ofNumber tag hnan
    rw [clamp_truncate_of_isInfinite tag hinf] at hvalue
    exact ⟨htag, hvalue, Binary64.twoPow63_le_add_one_of_isInfinite hinf⟩
  · have hnan : x.isNaN = false :=
      (Binary64.isNaN_eq_false_iff x).2 ((Binary64.rank_lt_infinityRank_iff x).2 hexponent).le
    obtain ⟨htag, hvalue⟩ := value_ofNumber tag hnan
    exact ⟨htag, hvalue, Binary64.twoPow63_le_add_one_iff hnan⟩
  · rw [ofNumberWithin_one, ofNumber_eq_saturation]

/-- The pattern of `-1.5`. -/
theorem toRat_minus_three_halves : (⟨0xBFF8000000000000⟩ : Binary64).toRat = -3 / 2 := by
  have hexponent : (⟨0xBFF8000000000000⟩ : Binary64).exponent = 1023 := by decide
  have hfraction : (⟨0xBFF8000000000000⟩ : Binary64).fraction = 2 ^ 51 := by decide
  rw [Binary64.toRat, if_pos (by decide), Binary64.magnitude, hexponent, hfraction]
  norm_num

/-- A NaN, the negative infinity, `-1.5`, the number before `2^63` and the negative number nearest
to zero. -/
theorem ofNumber_of_each_kind :
    ofNumber .unsigned ⟨0x7FF8000000000000⟩ = ⟨0, .unsigned⟩ ∧
    (ofNumber .signed ⟨0xFFF0000000000000⟩).value = -2 ^ 63 ∧
    (ofNumber .signed ⟨0xBFF8000000000000⟩).value = -1 ∧
    ¬Binary64.twoPow63.le (Binary64.belowTwoPow63.add .one) = true ∧
    ofNumber .signed ⟨0x8000000000000001⟩ = ⟨0, .signed⟩ := by
  refine ⟨(ofNumber_truncates_and_saturates _ _).1 (by decide) (by decide), ?_, ?_, ?_,
    (ofNumber_truncates_and_saturates _ _).2.2.2.1 (by decide)⟩
  · obtain ⟨-, hvalue, -⟩ :=
      (ofNumber_truncates_and_saturates .signed ⟨0xFFF0000000000000⟩).2.1 (by decide) (by decide)
    exact hvalue
  · obtain ⟨-, hvalue, -⟩ :=
      (ofNumber_truncates_and_saturates .signed ⟨0xBFF8000000000000⟩).2.2.1 (by decide)
    have htruncate : truncate (-3 / 2) = -1 := by
      rw [truncate, if_neg (by norm_num), Int.ceil_eq_iff]
      norm_num
    rw [hvalue, toRat_minus_three_halves, htruncate]
    decide
  · obtain ⟨-, -, htest⟩ :=
      (ofNumber_truncates_and_saturates .signed Binary64.belowTwoPow63).2.2.1 (by decide)
    rw [htest, ← Binary64.toRat_twoPow63, ← Binary64.quanta_le_iff]
    exact Int.not_le.2 Binary64.belowTwoPow63_lt

end Word

end TaggedWord
