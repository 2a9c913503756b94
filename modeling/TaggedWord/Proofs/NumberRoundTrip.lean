import TaggedWord.Proofs.ExactIntegers

/-! # Words through floating-point numbers and back

A word is converted to the number nearest to its value, and that number is cut and clamped to a word
again. The words whose value is a number come back unchanged. Of the others only the greatest of
each tag does: it is rounded up to the power of two behind it, which is clamped to it
(`ofNumber_toNumber_eq_iff`). A word that was made of a number comes back in any case
(`ofNumber_toNumber_ofNumber`).

* **`Signedness.clampThrough`** — the range of a tag with the power of two behind it, which is where
  the numbers of its words lie. -/

namespace TaggedWord

/-! ## Ranges of numbers -/

/-- **An integer clamped to the numbers of the words of a tag**: these reach from the least word
through the power of two behind the greatest one. -/
def Signedness.clampThrough (tag : Signedness) (z : Int) : Int :=
  max tag.least (min z (tag.greatest + 1))

/-- `tag.clamp z` is `z`, `tag.least` or `tag.greatest`. -/
theorem Signedness.clamp_cases (tag : Signedness) (z : Int) :
    tag.clamp z = z ∨ tag.clamp z = tag.least ∨ tag.clamp z = tag.greatest := by
  rw [clamp]
  omega

/-- `tag.least` is a number: zero or `-2 ^ 63`. -/
theorem Signedness.isExact_least (tag : Signedness) : Binary64.IsExact tag.least := by
  cases tag with
  | signed =>
    exact Binary64.isExact_of_natAbs_eq (n := 1) (s := 63) (by decide) (by decide) (by decide)
  | unsigned =>
    exact Binary64.isExact_of_natAbs_eq (n := 0) (s := 0) (by decide) (by decide) (by decide)

/-- `tag.greatest` is converted to the power of two behind it. -/
theorem Signedness.toRat_ofInt_greatest (tag : Signedness) :
    (Binary64.ofInt tag.greatest).toRat = (tag.greatest + 1 : Int) := by
  cases tag with
  | signed =>
    have hround : Binary64.ofInt Signedness.signed.greatest = .twoPow63 := by decide +kernel
    rw [hround, Binary64.toRat_twoPow63, greatest]
    norm_num
  | unsigned =>
    have hround : Binary64.ofInt Signedness.unsigned.greatest = .twoPow64 := by decide +kernel
    rw [hround, Binary64.toRat_twoPow64, greatest]
    norm_num

namespace Word

/-! ## From a word and back -/

/-- `w.toNumber` is finite. -/
theorem exponent_toNumber_lt (w : Word) : w.toNumber.exponent < 2047 := by
  have hexact : Binary64.IsExact (2 ^ 64) :=
    Binary64.isExact_of_natAbs_eq (n := 1) (s := 64) (by decide) (by decide) (by decide)
  have hbounds := (inRange_value w).bounds
  exact Binary64.exponent_ofInt_lt hexact (by omega)

/-- The value of `ofNumber tag x` is a number, or `tag.greatest`. -/
theorem isExact_value_ofNumber_or (tag : Signedness) (x : Binary64) :
    Binary64.IsExact (ofNumber tag x).value ∨ (ofNumber tag x).value = tag.greatest := by
  rcases x.isNaN_or_isInfinite_or_lt with hnan | hinf | hfinite
  · have hzero : (ofNumber tag x).value = 0 := by
      rw [ofNumber_of_isNaN tag hnan]
      cases tag <;> rfl
    rw [hzero]
    exact .inl (Binary64.isExact_of_natAbs_eq (n := 0) (s := 0) rfl (by decide) (by decide))
  · rw [(value_ofNumber tag (Binary64.isNaN_of_isInfinite hinf)).2,
      clamp_truncate_of_isInfinite tag hinf]
    by_cases hsign : x.signBit
    · rw [if_pos hsign]
      exact .inl tag.isExact_least
    · rw [if_neg hsign]
      exact .inr rfl
  · -- a clamped whole part is the whole part itself or an end of the range
    rw [(value_ofNumber tag (Binary64.isNaN_of_exponent_lt hfinite)).2]
    rcases tag.clamp_cases (truncate x.toRat) with hz | hz | hz
    · rw [hz]
      exact .inl (Binary64.isExact_truncate hfinite)
    · rw [hz]
      exact .inl tag.isExact_least
    · exact .inr hz

/-- **The words that come back unchanged** through `toNumber` and `ofNumber` are those whose value
is a number, and the greatest of each tag. -/
theorem ofNumber_toNumber_eq_iff (w : Word) :
    ofNumber w.tag w.toNumber = w ↔ Binary64.IsExact w.value ∨ w.value = w.tag.greatest := by
  constructor
  · intro h
    have hor := isExact_value_ofNumber_or w.tag w.toNumber
    rwa [h] at hor
  · intro h
    have hclamp : w.tag.clamp (truncate w.toNumber.toRat) = w.value := by
      rcases h with hexact | hgreatest
      · rw [toNumber, Binary64.toRat_ofInt hexact, truncate_intCast, w.inRange_value.clamp_eq]
      · -- the number is the power of two behind the range, which is clamped back
        rw [toNumber, hgreatest, Signedness.toRat_ofInt_greatest, truncate_intCast,
          Signedness.clamp_of_greatest_le (Int.le_of_lt (Int.lt_succ _))]
    rw [ofNumber_eq_ofInt_clamp w.tag (Binary64.isNaN_of_exponent_lt w.exponent_toNumber_lt),
      hclamp, ofInt_value]

/-- `w.value = w.tag.greatest` holds for `maxValue` and `maxUnsignedValue` only. -/
theorem value_eq_greatest_iff (w : Word) :
    w.value = w.tag.greatest ↔ w = maxValue ∨ w = maxUnsignedValue := by
  constructor
  · intro h
    have hself := ofInt_value w
    rw [h] at hself
    cases htag : w.tag with
    | signed =>
      rw [htag] at hself
      exact .inl (hself.symm.trans (by decide))
    | unsigned =>
      rw [htag] at hself
      exact .inr (hself.symm.trans (by decide))
  · rintro (rfl | rfl) <;> decide

/-! ## From a number and back -/

/-- `ofNumber tag x` has the tag that was asked for, NaN or not. -/
theorem tag_ofNumber (tag : Signedness) (x : Binary64) : (ofNumber tag x).tag = tag := by
  cases hx : x.isNaN with
  | false => exact (value_ofNumber tag hx).1
  | true => rw [ofNumber_of_isNaN tag hx]

/-- **A word that was made of a number comes back unchanged**: `ofNumber tag` undoes `toNumber` on
it. -/
theorem ofNumber_toNumber_ofNumber (tag : Signedness) (x : Binary64) :
    ofNumber tag (ofNumber tag x).toNumber = ofNumber tag x := by
  have hback := (ofNumber_toNumber_eq_iff (ofNumber tag x)).2
  rw [tag_ofNumber] at hback
  exact hback (isExact_value_ofNumber_or tag x)

/-- NaN comes back as zero. -/
theorem toNumber_ofNumber_of_isNaN (tag : Signedness) {x : Binary64} (hx : x.isNaN = true) :
    (ofNumber tag x).toNumber = .zero := by
  rw [ofNumber_of_isNaN tag hx]
  cases tag <;> decide +kernel

/-- An infinity comes back as `tag.least`, or as the power of two behind `tag.greatest`. -/
theorem toRat_toNumber_ofNumber_of_isInfinite (tag : Signedness) {x : Binary64}
    (hx : x.isInfinite = true) :
    (ofNumber tag x).toNumber.toRat
      = (if x.signBit then tag.least else tag.greatest + 1 : Int) := by
  rw [toNumber, (value_ofNumber tag (Binary64.isNaN_of_isInfinite hx)).2,
    clamp_truncate_of_isInfinite tag hx]
  by_cases hsign : x.signBit
  · rw [if_pos hsign, if_pos hsign, Binary64.toRat_ofInt tag.isExact_least]
  · rw [if_neg hsign, if_neg hsign, tag.toRat_ofInt_greatest]

/-- **The number of the word of a finite number** is `tag.clampThrough (truncate x.toRat)`: its
whole part, clamped to the range of the tag with the power of two behind it. -/
theorem toRat_toNumber_ofNumber (tag : Signedness) {x : Binary64} (hx : x.exponent < 2047) :
    (ofNumber tag x).toNumber.toRat = tag.clampThrough (truncate x.toRat) := by
  have hexact := Binary64.isExact_truncate hx
  rw [toNumber, (value_ofNumber tag (Binary64.isNaN_of_exponent_lt hx)).2]
  generalize truncate x.toRat = z at hexact ⊢
  rcases lt_or_ge tag.greatest z with hlt | hle
  · -- what is clamped to the greatest value is rounded up to the power of two behind it
    have hthrough : tag.clampThrough z = tag.greatest + 1 := by
      have hends : tag.least ≤ tag.greatest := by cases tag <;> decide
      rw [Signedness.clampThrough]
      omega
    rw [Signedness.clamp_of_greatest_le hlt.le, Signedness.toRat_ofInt_greatest, hthrough]
  · have hthrough : tag.clampThrough z = tag.clamp z := by
      rw [Signedness.clampThrough, Signedness.clamp]
      omega
    have hcases : tag.clamp z = z ∨ tag.clamp z = tag.least := by
      rw [Signedness.clamp]
      omega
    rw [hthrough]
    rcases hcases with hz | hz
    · rw [hz, Binary64.toRat_ofInt hexact]
    · rw [hz, Binary64.toRat_ofInt tag.isExact_least]

/-! ## Both ways -/

/-- **What survives the way through numbers.** `ofNumber w.tag w.toNumber` is `w` exactly if
`w.value` is a number or `w` is the greatest word of its tag. `(ofNumber tag x).toNumber` is the
whole part of `x`, clamped to the range of the tag with the power of two behind it; NaN gives zero,
and the result has its sign bit set only below zero. Converting that number once more gives the same
word. -/
theorem number_round_trips :
    (∀ w : Word, ofNumber w.tag w.toNumber = w ↔
      Binary64.IsExact w.value ∨ w = maxValue ∨ w = maxUnsignedValue) ∧
    ∀ (tag : Signedness) (x : Binary64),
      (x.exponent = 2047 → x.fraction ≠ 0 → (ofNumber tag x).toNumber = .zero) ∧
      (x.exponent = 2047 → x.fraction = 0 → (ofNumber tag x).toNumber.toRat
        = (if x.signBit then tag.least else tag.greatest + 1 : Int)) ∧
      (x.exponent < 2047 →
        (ofNumber tag x).toNumber.toRat = tag.clampThrough (truncate x.toRat)) ∧
      (ofNumber tag x).toNumber.exponent < 2047 ∧
      ((ofNumber tag x).toNumber.signBit = true ↔ (ofNumber tag x).toNumber.toRat < 0) ∧
      ofNumber tag (ofNumber tag x).toNumber = ofNumber tag x := by
  constructor
  · intro w
    rw [ofNumber_toNumber_eq_iff, value_eq_greatest_iff]
  · intro tag x
    refine ⟨?_, ?_, toRat_toNumber_ofNumber tag, exponent_toNumber_lt _,
      Binary64.signBit_ofInt_iff _, ofNumber_toNumber_ofNumber tag x⟩
    · intro hexponent hfraction
      exact toNumber_ofNumber_of_isNaN tag ((Binary64.isNaN_iff x).2 ⟨hexponent, hfraction⟩)
    · intro hexponent hfraction
      exact toRat_toNumber_ofNumber_of_isInfinite tag
        ((Binary64.isInfinite_iff x).2 ⟨hexponent, hfraction⟩)

/-- A NaN gives zero, the positive infinity gives `2^63`, and so does the number `2^64` under the
signed tag. -/
theorem number_round_trips_of_each_kind :
    (ofNumber .unsigned ⟨0x7FF8000000000000⟩).toNumber = .zero ∧
    (ofNumber .signed ⟨0x7FF0000000000000⟩).toNumber.toRat = 2 ^ 63 ∧
    (ofNumber .signed .twoPow64).toNumber.toRat = 2 ^ 63 := by
  refine ⟨(number_round_trips.2 _ _).1 (by decide) (by decide), ?_, ?_⟩
  · have hend : (if (⟨0x7FF0000000000000⟩ : Binary64).signBit then Signedness.signed.least
        else Signedness.signed.greatest + 1) = 2 ^ 63 := by decide
    rw [(number_round_trips.2 _ _).2.1 (by decide) (by decide), hend]
    norm_num
  · have hcast : (2 ^ 64 : ℚ) = (2 ^ 64 : ℤ) := by norm_num
    have hend : Signedness.signed.clampThrough (2 ^ 64) = 2 ^ 63 := by decide
    rw [(number_round_trips.2 _ _).2.2.1 (by decide), Binary64.toRat_twoPow64, hcast,
      truncate_intCast, hend]
    norm_num

end Word

end TaggedWord
