import TaggedWord.Word.Basic

/-! # Equality, order and hashing of words

Words are compared by the numbers they denote, so a signed and an unsigned word can be equal, and a
list may mix both.

* **`Word.eqv`** — equality of the numbers denoted, decided on the patterns and tags.
* **`Word.compare`** — the order of the numbers denoted; `<`, `≤`, `max` and `min` follow it.
* **`Word.hashBytes`** — what a hash table sees of a word: sixteen bytes that depend on its value
  alone. -/

namespace TaggedWord.Word

/-! ## Equality -/

/-- **Numeric equality.** The patterns must agree, and if the tags differ a set top bit means that
one side is negative and the other is at least `2^63`. -/
def eqv (a b : Word) : Bool :=
  if a.tag ≠ b.tag && a.topBit && b.topBit then false else a.bits == b.bits

/-- `a.eqv b` only for words with the same `bits`. -/
theorem bits_eq_of_eqv {a b : Word} (h : a.eqv b = true) : a.bits = b.bits := by
  unfold eqv at h
  split at h
  · exact absurd h Bool.false_ne_true
  · exact eq_of_beq h

/-- `a.eqv b ↔ a.value = b.value`: words are equal exactly if they denote the same number. -/
theorem eqv_iff_value_eq (a b : Word) : a.eqv b = true ↔ a.value = b.value := by
  obtain ⟨x, s⟩ := a
  obtain ⟨y, t⟩ := b
  have hx := x.isLt
  have hy := y.isLt
  have hxy : (x == y) = decide (x.toNat = y.toNat) := by
    rw [Bool.eq_iff_iff, beq_iff_eq, decide_eq_true_iff, BitVec.toNat_eq]
  cases s <;> cases t <;>
    simp only [eqv, topBit, value_signed, value_unsigned, BitVec.msb_eq_decide,
      BitVec.toInt_eq_toNat_cond, hxy] <;>
    grind

/-! ## Order -/

/-- **The order of the numbers denoted.** -/
def compare (a b : Word) : Ordering := Ord.compare a.value b.value

instance : Ord Word := ⟨compare⟩

instance : LT Word := ltOfOrd

instance : LE Word := leOfOrd

/-- The greater of two words. Of two that compare equal it is the second. -/
instance : Max Word := maxOfLe

/-- The lesser of two words. Of two that compare equal it is the first. -/
instance : Min Word := minOfLe

/-- `a.compare b = .eq ↔ a.value = b.value`: words compare equal exactly if their values agree. -/
theorem compare_eq_eq_iff (a b : Word) : a.compare b = .eq ↔ a.value = b.value :=
  Int.compare_eq_eq

/-- `a.compare b = .lt ↔ a.value < b.value`: the lesser word has the lesser value. -/
theorem compare_eq_lt_iff (a b : Word) : a.compare b = .lt ↔ a.value < b.value :=
  Int.compare_eq_lt

/-- `a.compare b = .gt ↔ b.value < a.value`: the greater word has the greater value. -/
theorem compare_eq_gt_iff (a b : Word) : a.compare b = .gt ↔ b.value < a.value :=
  Int.compare_eq_gt

/-- `a ≤ b ↔ a.value ≤ b.value`: the order instance of `Word` is the order of the values. -/
theorem le_iff_value_le (a b : Word) : a ≤ b ↔ a.value ≤ b.value :=
  Int.isLE_compare

/-! ## Tests -/

/-- Whether the pattern is zero. -/
def isZero (w : Word) : Bool := w.bits == 0

/-- Whether the lowest bit is set. -/
def isOdd (w : Word) : Bool := w.bits.getLsbD 0

/-- Whether the number denoted is below zero, which no unsigned word is. -/
def isNegative (w : Word) : Bool := w.tag == .signed && w.topBit

/-- `w.isNegative` tests whether the value is below zero. -/
theorem isNegative_eq_decide (w : Word) : w.isNegative = decide (w.value < 0) := by
  obtain ⟨x, tag⟩ := w
  cases tag with
  | signed =>
    rw [isNegative, topBit, value_signed, BitVec.msb_eq_toInt, beq_self_eq_true, Bool.true_and]
  | unsigned => exact (decide_eq_false (Int.not_lt.mpr (Int.natCast_nonneg _))).symm

/-! ## Hashing -/

/-- **The bytes given to a hash function**: the value in two's complement of 128 bits, lowest byte
first. Both readings fit in 128 bits, so words that denote the same number, and only those, give the
same bytes. -/
def hashBytes (w : Word) : List (BitVec 8) :=
  (List.range 16).map fun i => (BitVec.ofInt 128 w.value).extractLsb' (8 * i) 8

end TaggedWord.Word
