import TaggedWord.Proofs.Comparison
import TaggedWord.Proofs.NumberRoundTrip

/-! # Words compared with floating-point numbers

A number that a word is compared with is made a signed word first, whatever the tag of the word. So
the word is compared with the whole part of the number, clamped to the signed range, and NaN counts
as zero (`eqv_ofNumber_iff`). It follows that a word need not equal its own number: words from
`2^63` on never do, and of the others only those do that are numbers themselves, or the greatest
signed one (`eqv_ofNumber_toNumber_iff`).

* **`Binary64.signedWhole`** — the integer that a number counts as.
* **`orderLevel`** — the three orderings in a row, which a greater number goes down
  (`orderLevel_compare_ofNumber_le`). -/

namespace TaggedWord

/-! ## What a number counts as -/

/-- **The signed integer that a number counts as**: its whole part clamped to the signed range. NaN
counts as zero, and an infinity as the end of the range on its side. -/
def Binary64.signedWhole (d : Binary64) : Int :=
  if d.isNaN then 0
  else if d.isInfinite then (if d.signBit then -2 ^ 63 else 2 ^ 63 - 1)
  else max (-2 ^ 63) (min (truncate d.toRat) (2 ^ 63 - 1))

/-- `d.signedWhole` is the clamped whole part for all numbers: infinities need no rule of their own,
as their magnitude is beyond both ends. -/
theorem Binary64.signedWhole_of_not_isNaN {d : Binary64} (hd : d.isNaN = false) :
    d.signedWhole = Signedness.signed.clamp (truncate d.toRat) := by
  rw [signedWhole, if_neg (by rw [hd]; exact Bool.false_ne_true)]
  split
  · rename_i hinf
    rw [Word.clamp_truncate_of_isInfinite .signed hinf]
    rfl
  · rfl

/-- **A greater number counts as no lesser integer**: `signedWhole` is monotone for `le`. -/
theorem Binary64.signedWhole_mono {d₁ d₂ : Binary64} (h : d₁.le d₂ = true) :
    d₁.signedWhole ≤ d₂.signedWhole := by
  -- NaN is in no relation, so both are numbers
  obtain ⟨⟨h₁, h₂⟩, -⟩ : (d₁.isNaN = false ∧ d₂.isNaN = false) ∧ d₁.quanta ≤ d₂.quanta := by
    simpa [le] using h
  rw [le_iff h₁ h₂] at h
  rw [signedWhole_of_not_isNaN h₁, signedWhole_of_not_isNaN h₂]
  exact Signedness.signed.clamp_mono (truncate_mono h)

namespace Word

/-- `ofNumber .signed d` denotes `d.signedWhole`. -/
theorem value_ofNumber_signed (d : Binary64) : (ofNumber .signed d).value = d.signedWhole := by
  cases hd : d.isNaN with
  | false => rw [(value_ofNumber .signed hd).2, Binary64.signedWhole_of_not_isNaN hd]
  | true =>
    rw [ofNumber_of_isNaN .signed hd, Binary64.signedWhole, if_pos hd]
    rfl

/-! ## Equality and order -/

/-- **A word equals a number** if it denotes the integer `d.signedWhole` that the number counts
as. -/
theorem eqv_ofNumber_iff (x : Word) (d : Binary64) :
    x.eqv (ofNumber .signed d) = true ↔ x.value = d.signedWhole := by
  rw [eqv_iff_value_eq, value_ofNumber_signed]

/-- A word compares as equal to a number if it denotes `d.signedWhole`. -/
theorem compare_ofNumber_eq_iff (x : Word) (d : Binary64) :
    x.compare (ofNumber .signed d) = .eq ↔ x.value = d.signedWhole := by
  rw [compare_eq_eq_iff, value_ofNumber_signed]

/-- **The orderings in a row**: less, equal, greater. -/
def orderLevel : Ordering → Int
  | .lt => -1
  | .eq => 0
  | .gt => 1

/-- `orderLevel (x.compare b) ≤ orderLevel (x.compare a)` for `a.value ≤ b.value`. -/
theorem orderLevel_compare_le (x : Word) {a b : Word} (h : a.value ≤ b.value) :
    orderLevel (x.compare b) ≤ orderLevel (x.compare a) := by
  cases ha : x.compare a with
  | lt =>
    rw [compare_eq_lt_iff] at ha
    rw [(compare_eq_lt_iff x b).mpr (Int.lt_of_lt_of_le ha h)]
  | eq =>
    rw [compare_eq_eq_iff] at ha
    cases hb : x.compare b with
    | lt => decide
    | eq => decide
    | gt =>
      rw [compare_eq_gt_iff] at hb
      omega
  | gt => cases x.compare b <;> decide

/-- **The ordering goes down while the number goes up**: `orderLevel` of comparing `x` with it is
antitone. -/
theorem orderLevel_compare_ofNumber_le (x : Word) {d₁ d₂ : Binary64} (h : d₁.le d₂ = true) :
    orderLevel (x.compare (ofNumber .signed d₂))
      ≤ orderLevel (x.compare (ofNumber .signed d₁)) := by
  apply orderLevel_compare_le
  rw [value_ofNumber_signed, value_ofNumber_signed]
  exact Binary64.signedWhole_mono h

/-! ## The number of the word itself -/

/-- `2 ^ 63 ≤ w.value` holds for the unsigned words with their top bit set. -/
theorem le_value_iff_topBit (w : Word) :
    2 ^ 63 ≤ w.value ↔ w.tag = .unsigned ∧ w.topBit = true := by
  obtain ⟨x, tag⟩ := w
  cases tag with
  | signed =>
    have hhi : x.toInt < 2 ^ 63 := BitVec.toInt_lt
    exact iff_of_false (Int.not_le.mpr hhi) fun h => nomatch h.1
  | unsigned =>
    have htop : topBit ⟨x, .unsigned⟩ = decide (2 ^ 63 ≤ x.toNat) := BitVec.msb_eq_decide x
    rw [value_unsigned, htop, decide_eq_true_iff, and_iff_right rfl]
    omega

/-- **Which words equal their own number** `x.toNumber`: those below `2^63` that are numbers, and
`2^63 - 1`, which is rounded up to `2^63` and clamped back. -/
theorem eqv_ofNumber_toNumber_iff (x : Word) :
    x.eqv (ofNumber .signed x.toNumber) = true ↔
      x.value < 2 ^ 63 ∧ (Binary64.IsExact x.value ∨ x.value = 2 ^ 63 - 1) := by
  rw [eqv_iff_value_eq]
  constructor
  · intro h
    have hrange := inRange_value (ofNumber .signed x.toNumber)
    rw [tag_ofNumber, ← h] at hrange
    have hor := isExact_value_ofNumber_or .signed x.toNumber
    rw [← h] at hor
    exact ⟨hrange.2, hor⟩
  · rintro ⟨hhi, hor⟩
    -- the number is that of the signed word with the same value, which comes back unchanged
    have hvalue : (ofInt .signed x.value).value = x.value :=
      value_ofInt ⟨(inRange_value x).bounds.1, hhi⟩
    have hback := (ofNumber_toNumber_eq_iff (ofInt .signed x.value)).mpr
    rw [toNumber, hvalue, tag_ofInt] at hback
    rw [toNumber, hback hor, hvalue]

/-- **Words compared with numbers.** A word equals a number `d`, and compares as equal to it,
exactly if its value is `d.signedWhole`, the whole part clamped to the signed range and zero for
NaN; and the `orderLevel` never goes up with the number. A word equals its own number `x.toNumber`
exactly if its value is below `2^63` and is a number or `2^63 - 1`, so no unsigned word with its top
bit set does. -/
theorem compares_with_signedWhole :
    (∀ (x : Word) (d : Binary64),
      (x.eqv (ofNumber .signed d) = true ↔ x.value = d.signedWhole) ∧
      (x.compare (ofNumber .signed d) = .eq ↔ x.value = d.signedWhole)) ∧
    (∀ (x : Word) (d₁ d₂ : Binary64), d₁.le d₂ = true →
      orderLevel (x.compare (ofNumber .signed d₂)) ≤
        orderLevel (x.compare (ofNumber .signed d₁))) ∧
    (∀ x : Word, x.eqv (ofNumber .signed x.toNumber) = true ↔
      x.value < 2 ^ 63 ∧ (Binary64.IsExact x.value ∨ x.value = 2 ^ 63 - 1)) ∧
    ∀ x : Word, x.tag = .unsigned → x.topBit = true →
      x.eqv (ofNumber .signed x.toNumber) = false := by
  refine ⟨?_, ?_, eqv_ofNumber_toNumber_iff, ?_⟩
  · intro x d
    exact ⟨eqv_ofNumber_iff x d, compare_ofNumber_eq_iff x d⟩
  · intro x d₁ d₂ h
    exact orderLevel_compare_ofNumber_le x h
  · intro x htag htop
    have hlarge := (le_value_iff_topBit x).mpr ⟨htag, htop⟩
    rw [Bool.eq_false_iff, Ne, eqv_ofNumber_toNumber_iff]
    exact fun h => absurd h.1 (Int.not_lt.mpr hlarge)

/-- The greatest signed word is above the number before `2^63` and equal to `2^63`. The unsigned
`2^63` is a number, and yet it does not equal its own. -/
theorem compares_with_signedWhole_near_two_pow :
    (Binary64.belowTwoPow63.le .twoPow63 = true ∧
      orderLevel (maxValue.compare (ofNumber .signed .twoPow63)) ≤
        orderLevel (maxValue.compare (ofNumber .signed Binary64.belowTwoPow63))) ∧
    (minValue.toUnsigned.tag = .unsigned ∧ minValue.toUnsigned.topBit = true ∧
      minValue.toUnsigned.eqv (ofNumber .signed minValue.toUnsigned.toNumber) = false) := by
  have horder : Binary64.belowTwoPow63.le .twoPow63 = true := by decide +kernel
  have htop : minValue.toUnsigned.topBit = true := by decide
  exact ⟨⟨horder, compares_with_signedWhole.2.1 _ _ _ horder⟩,
    rfl, htop, compares_with_signedWhole.2.2.2 _ rfl htop⟩

end Word

end TaggedWord
