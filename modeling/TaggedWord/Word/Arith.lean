import TaggedWord.Word.Bits

/-! # Arithmetic on words

Sums, differences and products wrap modulo `2^64`, and negation is that of two's complement. The
result carries the tag of the first operand, except where a product is settled by one of the rules
of `Word.mul`.

* **`Word.add`**, **`Word.sub`**, **`Word.neg`** — wrapping, tagged like the first operand.
* **`Word.mul`** — wrapping, with signed answers for a zero operand and for `-2^63`. -/

namespace TaggedWord.Word

/-! ## Sums -/

/-- **Wrapping sum**, tagged like the first operand. -/
def add (a b : Word) : Word := ⟨a.bits + b.bits, a.tag⟩

@[simp] theorem bits_add (a b : Word) : (a.add b).bits = a.bits + b.bits := rfl

@[simp] theorem tag_add (a b : Word) : (a.add b).tag = a.tag := rfl

/-- **Two's-complement negation**: invert and add one. The least signed word is its own negation. -/
def neg (w : Word) : Word :=
  if w.tag == .signed && w.eqv minValue then minValue else w.not.add one

/-- Negation negates the pattern, for every tag. -/
@[simp] theorem bits_neg (w : Word) : w.neg.bits = -w.bits := by
  unfold neg
  split
  · rename_i h
    rw [bits_eq_of_eqv (Bool.and_eq_true_iff.mp h).2]
    decide
  · rw [bits_add, bits_not, BitVec.neg_eq_not_add]
    rfl

@[simp] theorem tag_neg (w : Word) : w.neg.tag = w.tag := by
  unfold neg
  split
  · rename_i h
    exact (eq_of_beq (Bool.and_eq_true_iff.mp h).1).symm
  · rfl

/-- **Wrapping difference**, tagged like the first operand. -/
def sub (a b : Word) : Word := a.add b.neg

@[simp] theorem bits_sub (a b : Word) : (a.sub b).bits = a.bits - b.bits := by
  rw [sub, bits_add, bits_neg, BitVec.sub_eq_add_neg]

@[simp] theorem tag_sub (a b : Word) : (a.sub b).tag = a.tag := rfl

/-! ## Products -/

/-- **Wrapping product.** A zero operand gives the signed zero. An operand equal to `-2^63` leaves
only the lowest bit of the other one, and the answer is signed. Any other product is tagged like the
first operand. -/
def mul (a b : Word) : Word :=
  if a.isZero || b.isZero then zero
  else if a.eqv minValue then (if b.isOdd then minValue else zero)
  else if b.eqv minValue then (if a.isOdd then minValue else zero)
  else ⟨a.bits * b.bits, a.tag⟩

/-- The pattern of `minValue` times an odd pattern is itself, and times an even one zero. -/
theorem minValue_bits_mul (x : BitVec 64) :
    minValue.bits * x = if x.getLsbD 0 then minValue.bits else 0 := by
  have hodd : x.getLsbD 0 = decide (x.toNat % 2 = 1) := Nat.testBit_zero x.toNat
  have hmin : minValue.bits.toNat = 0x8000000000000000 := by decide
  apply BitVec.eq_of_toNat_eq
  rw [BitVec.toNat_mul, hmin, hodd]
  by_cases h : x.toNat % 2 = 1
  · rw [if_pos (decide_eq_true h), hmin]
    omega
  · rw [if_neg (by simpa using h)]
    show 0x8000000000000000 * x.toNat % 0x10000000000000000 = 0
    omega

/-- Whatever rule settles a product, its pattern is the product of the patterns. -/
@[simp] theorem bits_mul (a b : Word) : (a.mul b).bits = a.bits * b.bits := by
  unfold mul
  split
  · rename_i h
    rcases Bool.or_eq_true_iff.mp h with h | h
    · rw [eq_of_beq h]
      exact BitVec.zero_mul.symm
    · rw [eq_of_beq h]
      exact BitVec.mul_zero.symm
  · split
    · rename_i h
      rw [bits_eq_of_eqv h, minValue_bits_mul]
      exact apply_ite bits _ _ _
    · split
      · rename_i h
        rw [bits_eq_of_eqv h, BitVec.mul_comm, minValue_bits_mul]
        exact apply_ite bits _ _ _
      · rfl

instance : Add Word := ⟨add⟩

instance : Sub Word := ⟨sub⟩

instance : Neg Word := ⟨neg⟩

instance : Mul Word := ⟨mul⟩

end TaggedWord.Word
