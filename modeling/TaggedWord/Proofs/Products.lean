import TaggedWord.Proofs.Wrapping

/-! # Products by sign and magnitude

The pattern of a product is that of the patterns, and its tag is that of the first factor unless one
of the rules for zero and `-2^63` settles the product. A product can also be found by multiplying
the magnitudes of the factors and negating the result if exactly one factor is negative. The two
ways agree (`mul_eq_signMagnitudeMul`) because signs cancel modulo `2^64`; only `-2^63`, the
absolute value of which is no signed word, is left to a rule.

* **`Word.magnitude`** — a word without its sign, with `value_magnitude` for its value.
* **`Word.signMagnitudeMul`** — the product by sign and magnitude, decided on the numbers that the
  factors denote.
* **`mul_eq_mul_swap_iff`** — the factors that can be exchanged. -/

namespace TaggedWord.Word

/-! ## Tests on the number denoted -/

/-- `w.isZero` tests whether the value is zero, under either tag. -/
theorem isZero_eq_decide (w : Word) : w.isZero = decide (w.value = 0) := by
  obtain ⟨x, tag⟩ := w
  have hx := x.isLt
  rw [Bool.eq_iff_iff, isZero, beq_iff_eq, decide_eq_true_iff, BitVec.toNat_eq]
  cases tag with
  | signed =>
    rw [value_signed, BitVec.toInt_eq_toNat_cond]
    show x.toNat = 0 ↔ _
    split <;> omega
  | unsigned =>
    rw [value_unsigned]
    exact Int.natCast_eq_zero.symm

/-- `w.isOdd` tests whether the value is odd, under either tag. -/
theorem isOdd_eq_decide (w : Word) : w.isOdd = decide (w.value % 2 = 1) := by
  obtain ⟨x, tag⟩ := w
  have hbit : x.getLsbD 0 = decide (x.toNat % 2 = 1) := Nat.testBit_zero x.toNat
  rw [isOdd, hbit, decide_eq_decide]
  cases tag with
  | signed =>
    rw [value_signed, BitVec.toInt_eq_toNat_cond]
    split <;> omega
  | unsigned =>
    rw [value_unsigned]
    omega

/-- `w.eqv minValue` tests whether the value is that of `minValue`. -/
theorem eqv_minValue_eq_decide (w : Word) :
    w.eqv minValue = decide (w.value = minValue.value) := by
  rw [Bool.eq_iff_iff, eqv_iff_value_eq, decide_eq_true_iff]

/-! ## Magnitudes -/

/-- **A word without its sign**: a negative word is replaced by its negation. -/
def magnitude (w : Word) : Word := if w.isNegative then w.neg else w

/-- `w.magnitude` has the pattern of `w`, negated for a negative word. -/
theorem bits_magnitude (w : Word) :
    w.magnitude.bits = if w.isNegative then -w.bits else w.bits := by
  rw [magnitude, apply_ite bits, bits_neg]

/-- Only a signed word is negative. -/
theorem tag_of_isNegative {w : Word} (h : w.isNegative = true) : w.tag = .signed :=
  eq_of_beq (Bool.and_eq_true_iff.mp h).1

/-- `w.magnitude` denotes `|w.value|`, except for `minValue`, the absolute value of which is above
the signed range. -/
theorem value_magnitude {w : Word} (h : w ≠ minValue) : w.magnitude.value = |w.value| := by
  rw [magnitude]
  by_cases hneg : w.isNegative = true
  · have hvalue : w.value < 0 := by rwa [isNegative_eq_decide, decide_eq_true_iff] at hneg
    have hmin : w.value ≠ -2 ^ 63 := by
      intro heq
      exact h ((eqv_minValue_iff w).mp ((eqv_iff_value_eq w minValue).mpr heq))
    have hrange : w.tag.InRange (-w.value) := by
      have hself := inRange_value w
      rw [tag_of_isNegative hneg] at hself ⊢
      obtain ⟨hlo, hhi⟩ := hself
      constructor <;> omega
    rw [if_pos hneg, ← ofInt_value w, neg_ofInt, ofInt_value, value_ofInt hrange,
      abs_of_neg hvalue]
  · have hvalue : 0 ≤ w.value := by
      rwa [isNegative_eq_decide, decide_eq_true_iff, Int.not_lt] at hneg
    rw [if_neg hneg, abs_of_nonneg hvalue]

/-! ## The product -/

/-- **The product of the magnitudes with the sign of the factors**: it has the tag of the first
factor, and it is negated if exactly one factor is negative. -/
def mulMagnitudes (a b : Word) : Word :=
  let product : Word := ⟨a.magnitude.bits * b.magnitude.bits, a.tag⟩
  if a.isNegative = b.isNegative then product else product.neg

/-- **The product by sign and magnitude.** A factor zero makes the signed zero, and a factor `-2^63`
keeps no more than the parity of the other one. All other products are those of magnitudes. -/
def signMagnitudeMul (a b : Word) : Word :=
  if a.value = 0 ∨ b.value = 0 then zero
  else if a.value = minValue.value then (if b.value % 2 = 1 then minValue else zero)
  else if b.value = minValue.value then (if a.value % 2 = 1 then minValue else zero)
  else a.mulMagnitudes b

/-- `a.mulMagnitudes b` has the tag of the first factor. -/
theorem tag_mulMagnitudes (a b : Word) : (a.mulMagnitudes b).tag = a.tag := by
  rw [mulMagnitudes]
  split
  · rfl
  · exact tag_neg _

/-- **Signs cancel**: in `a.mulMagnitudes b` the negated factors and the negated product leave the
product of the patterns. -/
theorem bits_mulMagnitudes (a b : Word) : (a.mulMagnitudes b).bits = a.bits * b.bits := by
  rw [mulMagnitudes, apply_ite bits, bits_neg, bits_magnitude, bits_magnitude]
  -- two signs cancel in the factors, and a single one in the product
  cases a.isNegative <;> cases b.isNegative <;>
    simp only [BitVec.neg_mul, BitVec.mul_neg, BitVec.neg_neg, if_true, if_false,
      Bool.false_eq_true, Bool.true_eq_false]

/-- `a.mul b = a.signMagnitudeMul b`: the rules of the product test patterns and tags, but decide on
the numbers denoted. -/
theorem mul_eq_signMagnitudeMul (a b : Word) : a.mul b = a.signMagnitudeMul b := by
  have hmagnitudes : a.mulMagnitudes b = ⟨a.bits * b.bits, a.tag⟩ :=
    Word.ext (bits_mulMagnitudes a b) (tag_mulMagnitudes a b)
  rw [signMagnitudeMul, hmagnitudes, mul]
  simp only [isZero_eq_decide, isOdd_eq_decide, eqv_minValue_eq_decide, Bool.or_eq_true,
    decide_eq_true_iff]

/-- `(a.mul b).asUnsigned` is the product of the patterns modulo `2 ^ 64`. -/
theorem asUnsigned_mul (a b : Word) :
    (a.mul b).asUnsigned = a.asUnsigned * b.asUnsigned % 2 ^ 64 := by
  rw [asUnsigned, bits_mul, BitVec.toNat_mul, asUnsigned, asUnsigned]

/-- `(a.mul b).tag`, by the numbers that the factors denote. -/
theorem tag_mul_eq_ite (a b : Word) :
    (a.mul b).tag = if a.value ≠ 0 ∧ b.value ≠ 0 ∧ b ≠ minValue then a.tag else .signed := by
  simp only [tag_mul, isZero_eq_decide, decide_eq_false_iff_not, ne_eq]

/-- `a.mul b` is unsigned iff `a` is and no rule settles the product. -/
theorem tag_mul_eq_unsigned_iff (a b : Word) :
    (a.mul b).tag = .unsigned ↔
      a.tag = .unsigned ∧ a.value ≠ 0 ∧ b.value ≠ 0 ∧ b ≠ minValue := by
  rw [tag_mul_eq_ite]
  split
  · rename_i h
    exact ⟨fun htag => ⟨htag, h⟩, And.left⟩
  · rename_i h
    exact iff_of_false (by decide) fun h' => h h'.2

/-- The signed `-2^63` as second factor takes the tag away, and the unsigned `2^63` does not. -/
example : (⟨3, .unsigned⟩ : Word).mul minValue = minValue ∧
    (⟨3, .unsigned⟩ : Word).mul minValue.toUnsigned = minValue.toUnsigned := by decide

/-- `a.mul b` is signed if a rule settles it, whichever factor the rule is about. -/
theorem tag_mul_of_settled {a b : Word}
    (h : a.value = 0 ∨ b.value = 0 ∨ a = minValue ∨ b = minValue) : (a.mul b).tag = .signed := by
  rw [tag_mul_eq_ite]
  split
  · rename_i hfree
    -- only a first factor `-2^63` is left, and that one is signed itself
    obtain rfl : a = minValue := by tauto
    rfl
  · rfl

/-- **Which factors can be exchanged** in `a.mul b`: those of one tag, and those of which one is
zero or `minValue`. Others make products of different tags. -/
theorem mul_eq_mul_swap_iff (a b : Word) :
    a.mul b = b.mul a ↔
      a.tag = b.tag ∨ a.value = 0 ∨ b.value = 0 ∨ a = minValue ∨ b = minValue := by
  have hbits : (a.mul b).bits = (b.mul a).bits := by rw [bits_mul, bits_mul, BitVec.mul_comm]
  have htag : a.mul b = b.mul a ↔ (a.mul b).tag = (b.mul a).tag :=
    ⟨congrArg tag, fun h => Word.ext hbits h⟩
  rw [htag]
  by_cases hsettled : a.value = 0 ∨ b.value = 0 ∨ a = minValue ∨ b = minValue
  · have hswapped : b.value = 0 ∨ a.value = 0 ∨ b = minValue ∨ a = minValue := by tauto
    rw [tag_mul_of_settled hsettled, tag_mul_of_settled hswapped]
    exact iff_of_true rfl (.inr hsettled)
  · -- each product has the tag of its own first factor
    obtain ⟨ha, hb, hmina, hminb⟩ : a.value ≠ 0 ∧ b.value ≠ 0 ∧ a ≠ minValue ∧ b ≠ minValue := by
      tauto
    rw [tag_mul_eq_ite, if_pos ⟨ha, hb, hminb⟩, tag_mul_eq_ite, if_pos ⟨hb, ha, hmina⟩]
    exact (or_iff_left hsettled).symm

/-- **What a product is.** The pattern of `a.mul b` is the product of the patterns modulo `2^64`. It
is unsigned if and only if `a` is, neither factor is zero and `b` is not `minValue`. It is
`a.signMagnitudeMul b`, and the factors can be exchanged if they have one tag; with different tags
only where a rule settles the product. -/
theorem mul_eq_product_of_magnitudes (a b : Word) :
    (a.mul b).asUnsigned = a.asUnsigned * b.asUnsigned % 2 ^ 64 ∧
    ((a.mul b).tag = .unsigned ↔
      a.tag = .unsigned ∧ a.value ≠ 0 ∧ b.value ≠ 0 ∧ b ≠ minValue) ∧
    a.mul b = a.signMagnitudeMul b ∧
    (a.mul b = b.mul a ↔
      a.tag = b.tag ∨ a.value = 0 ∨ b.value = 0 ∨ a = minValue ∨ b = minValue) :=
  ⟨asUnsigned_mul a b, tag_mul_eq_unsigned_iff a b, mul_eq_signMagnitudeMul a b,
    mul_eq_mul_swap_iff a b⟩

end TaggedWord.Word
