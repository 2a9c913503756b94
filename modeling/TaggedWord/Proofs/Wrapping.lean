import TaggedWord.Word.Arith
import Mathlib.Data.Int.Basic
import Mathlib.Algebra.Order.Ring.Int

/-! # Integers wrapped into words

Under each tag an integer has a word: the one whose pattern is the integer modulo `2^64`. An integer
that the tag can denote is the value of its word, and arithmetic on words follows arithmetic on the
integers that they were made of.

* **`Signedness.InRange`** — the integers that a tag can denote, with `Signedness.clamp` for the
  nearest of them to an integer.
* **`Word.ofInt`** — the word of an integer, inverse to `Word.value` in range (`value_ofInt`,
  `ofInt_value`).
* **`neg_ofInt`**, **`add_ofInt`**, **`mul_ofInt_signed`** — the operations on such words.
* **`tag_mul`** — the tag of a product, of all operations the only one that can differ from the tag
  of the first operand. -/

namespace TaggedWord

/-! ## Ranges -/

/-- **The integers that a tag can denote**: `[-2^63, 2^63)` signed and `[0, 2^64)` unsigned. -/
def Signedness.InRange (tag : Signedness) (z : Int) : Prop :=
  match tag with
  | .signed => -2 ^ 63 ≤ z ∧ z < 2 ^ 63
  | .unsigned => 0 ≤ z ∧ z < 2 ^ 64

instance (tag : Signedness) (z : Int) : Decidable (tag.InRange z) :=
  match tag with
  | .signed => inferInstanceAs (Decidable (-2 ^ 63 ≤ z ∧ z < 2 ^ 63))
  | .unsigned => inferInstanceAs (Decidable (0 ≤ z ∧ z < 2 ^ 64))

/-- `tag.InRange z` for either tag lies within `[-2^63, 2^64)`. -/
theorem Signedness.InRange.bounds {tag : Signedness} {z : Int} (h : tag.InRange z) :
    -2 ^ 63 ≤ z ∧ z < 2 ^ 64 := by
  cases tag with
  | signed => exact ⟨h.1, by have := h.2; omega⟩
  | unsigned => exact ⟨by have := h.1; omega, h.2⟩

/-- The least integer that a tag can denote. -/
def Signedness.least : Signedness → Int
  | .signed => -2 ^ 63
  | .unsigned => 0

/-- The greatest integer that a tag can denote. -/
def Signedness.greatest : Signedness → Int
  | .signed => 2 ^ 63 - 1
  | .unsigned => 2 ^ 64 - 1

/-- `tag.InRange z` iff `z` lies from `tag.least` to `tag.greatest`. -/
theorem Signedness.inRange_iff (tag : Signedness) (z : Int) :
    tag.InRange z ↔ tag.least ≤ z ∧ z ≤ tag.greatest := by
  cases tag <;> simp only [InRange, least, greatest] <;> omega

/-- **An integer clamped to the range of a tag.** -/
def Signedness.clamp (tag : Signedness) (z : Int) : Int := max tag.least (min z tag.greatest)

/-- `tag.clamp z` is in range. -/
theorem Signedness.inRange_clamp (tag : Signedness) (z : Int) : tag.InRange (tag.clamp z) := by
  have hends : tag.least ≤ tag.greatest := by cases tag <;> decide
  rw [inRange_iff, clamp]
  omega

/-- `tag.clamp` is monotone. -/
theorem Signedness.clamp_mono (tag : Signedness) {a b : Int} (h : a ≤ b) :
    tag.clamp a ≤ tag.clamp b := by
  rw [clamp, clamp]
  omega

/-- `tag.clamp z = z` for the integers in range. -/
theorem Signedness.InRange.clamp_eq {tag : Signedness} {z : Int} (h : tag.InRange z) :
    tag.clamp z = z := by
  rw [inRange_iff] at h
  rw [clamp]
  omega

/-- `tag.clamp z = tag.least` for the integers up to it. -/
theorem Signedness.clamp_of_le_least {tag : Signedness} {z : Int} (h : z ≤ tag.least) :
    tag.clamp z = tag.least := by
  have hends : tag.least ≤ tag.greatest := by cases tag <;> decide
  rw [clamp]
  omega

/-- `tag.clamp z = tag.greatest` for the integers from it on. -/
theorem Signedness.clamp_of_greatest_le {tag : Signedness} {z : Int} (h : tag.greatest ≤ z) :
    tag.clamp z = tag.greatest := by
  have hends : tag.least ≤ tag.greatest := by cases tag <;> decide
  rw [clamp]
  omega

namespace Word

/-- `w.tag.InRange w.value`: the value of a word lies in the range of its tag. -/
theorem inRange_value (w : Word) : w.tag.InRange w.value := by
  obtain ⟨x, tag⟩ := w
  have hx := x.isLt
  cases tag with
  | signed =>
    rw [value_signed, BitVec.toInt_eq_toNat_cond]
    constructor <;> split <;> omega
  | unsigned =>
    rw [value_unsigned]
    constructor <;> omega

/-! ## The word of an integer -/

/-- **The word of an integer** under a tag: its pattern is the integer modulo `2^64`. -/
def ofInt (tag : Signedness) (z : Int) : Word := ⟨BitVec.ofInt 64 z, tag⟩

@[simp] theorem bits_ofInt (tag : Signedness) (z : Int) :
    (ofInt tag z).bits = BitVec.ofInt 64 z := rfl

@[simp] theorem tag_ofInt (tag : Signedness) (z : Int) : (ofInt tag z).tag = tag := rfl

@[simp] theorem retag_ofInt (tag tag' : Signedness) (z : Int) :
    (ofInt tag z).retag tag' = ofInt tag' z := rfl

/-- `(ofInt tag z).asUnsigned = z % 2 ^ 64`: the pattern of the word of an integer is its
residue. -/
theorem asUnsigned_ofInt (tag : Signedness) (z : Int) :
    ((ofInt tag z).asUnsigned : Int) = z % 2 ^ 64 := by
  rw [asUnsigned, bits_ofInt, BitVec.toNat_ofInt]
  omega

/-- Every word is the word of its value. -/
@[simp] theorem ofInt_value (w : Word) : ofInt w.tag w.value = w := by
  obtain ⟨x, tag⟩ := w
  cases tag with
  | signed => rw [value_signed, ofInt, BitVec.ofInt_toInt]
  | unsigned =>
    rw [value_unsigned, ofInt, BitVec.ofInt_natCast, BitVec.ofNat_toNat, BitVec.setWidth_eq]

/-- `(ofInt tag z).value = z` for an integer that the tag can denote. -/
theorem value_ofInt {tag : Signedness} {z : Int} (h : tag.InRange z) : (ofInt tag z).value = z := by
  cases tag with
  | signed =>
    obtain ⟨hlo, hhi⟩ := h
    exact BitVec.toInt_ofInt_eq_self (by decide) hlo hhi
  | unsigned =>
    obtain ⟨hlo, hhi⟩ := h
    exact (asUnsigned_ofInt .unsigned z).trans (Int.emod_eq_of_lt hlo hhi)

/-- `ofInt .signed z` denotes the representative of `z` in `[-2^63, 2^63)`. -/
theorem value_ofInt_signed (z : Int) : (ofInt .signed z).value = z.bmod (2 ^ 64) :=
  BitVec.toInt_ofInt z

/-- `ofInt .unsigned z` denotes the representative of `z` in `[0, 2^64)`. -/
theorem value_ofInt_unsigned (z : Int) : (ofInt .unsigned z).value = z % 2 ^ 64 :=
  asUnsigned_ofInt .unsigned z

/-- `w.retag tag = ofInt tag w.value`: retagging gives the word of the same value under the other
tag. -/
theorem retag_eq_ofInt (w : Word) (tag : Signedness) : w.retag tag = ofInt tag w.value := by
  rw [← retag_ofInt w.tag, ofInt_value]

/-- **The value of a word read as a signed one**: `w.toSigned` drops by `2^64` for an unsigned word
with its top bit set, and every other word keeps its value. -/
theorem value_toSigned (w : Word) :
    w.toSigned.value
      = if w.tag = .signed ∨ w.topBit = false then w.value else w.value - 2 ^ 64 := by
  obtain ⟨x, tag⟩ := w
  cases tag with
  | signed => rfl
  | unsigned =>
    rw [toSigned, retag, value_signed, value_unsigned, topBit, BitVec.toInt_eq_msb_cond]
    cases x.msb <;> simp

/-- `w.toSigned.eqv w` exactly if the word keeps its value in its signed reading. -/
theorem toSigned_eqv_iff (w : Word) :
    w.toSigned.eqv w = true ↔ w.tag = .signed ∨ w.topBit = false := by
  rw [eqv_iff_value_eq, value_toSigned]
  split
  · rename_i h
    exact iff_of_true rfl h
  · rename_i h
    exact iff_of_false (by omega) h

/-! ## Arithmetic -/

/-- `(ofInt tag z).neg = ofInt tag (-z)`. -/
theorem neg_ofInt (tag : Signedness) (z : Int) : (ofInt tag z).neg = ofInt tag (-z) := by
  ext1
  · rw [bits_neg, bits_ofInt, bits_ofInt, BitVec.ofInt_neg]
  · rw [tag_neg, tag_ofInt, tag_ofInt]

/-- `ofInt tag a` plus any word of `b` is `ofInt tag (a + b)`. -/
theorem add_ofInt (tag tag' : Signedness) (a b : Int) :
    (ofInt tag a).add (ofInt tag' b) = ofInt tag (a + b) := by
  ext1
  · rw [bits_add, bits_ofInt, bits_ofInt, bits_ofInt, BitVec.ofInt_add]
  · rfl

/-- `w.eqv minValue ↔ w = minValue`: the unsigned `2^63` is not equal to it. -/
theorem eqv_minValue_iff (w : Word) : w.eqv minValue = true ↔ w = minValue := by
  rw [eqv_iff_value_eq]
  refine ⟨fun h => ?_, fun h => by rw [h]⟩
  have htag : w.tag = .signed := by
    cases ht : w.tag with
    | signed => rfl
    | unsigned =>
      -- an unsigned word is not negative
      have hrange := inRange_value w
      rw [ht, h] at hrange
      exact absurd hrange (by decide)
  rw [← ofInt_value w, htag, h]
  decide

/-- **A product has the tag of its first factor** unless a factor is zero or the second one is
`minValue`, which make it signed. -/
theorem tag_mul (a b : Word) :
    (a.mul b).tag
      = if a.isZero = false ∧ b.isZero = false ∧ b ≠ minValue then a.tag else .signed := by
  unfold mul
  by_cases hzero : (a.isZero || b.isZero) = true
  · -- a zero operand
    rw [if_pos hzero, if_neg fun h => by simp [h.1, h.2.1] at hzero]
    rfl
  · rw [if_neg hzero]
    obtain ⟨ha, hb⟩ : a.isZero = false ∧ b.isZero = false := by simpa using hzero
    by_cases hmin : a.eqv minValue = true
    · -- `-2^63` on the left: `minValue` or `zero`, and the first factor is signed itself
      rw [if_pos hmin, (eqv_minValue_iff a).mp hmin]
      split <;> split <;> rfl
    · rw [if_neg hmin]
      by_cases hmin' : b.eqv minValue = true
      · -- `-2^63` on the right: `minValue` or `zero`, whatever the first factor is
        have hlost : ¬(a.isZero = false ∧ b.isZero = false ∧ b ≠ minValue) := fun h =>
          h.2.2 ((eqv_minValue_iff b).mp hmin')
        rw [if_pos hmin', if_neg hlost]
        split <;> rfl
      · rw [if_neg hmin', if_pos ⟨ha, hb, fun h => hmin' ((eqv_minValue_iff b).mpr h)⟩]

/-- `a.mul b` is signed for a signed `a`, whatever rule settles it. -/
theorem tag_mul_of_signed {a : Word} (b : Word) (h : a.tag = .signed) :
    (a.mul b).tag = .signed := by
  rw [tag_mul, h, ite_self]

/-- `ofInt .signed a` times any word of `b` is `ofInt .signed (a * b)`. -/
theorem mul_ofInt_signed (tag : Signedness) (a b : Int) :
    (ofInt .signed a).mul (ofInt tag b) = ofInt .signed (a * b) := by
  ext1
  · rw [bits_mul, bits_ofInt, bits_ofInt, bits_ofInt, BitVec.ofInt_mul]
  · exact tag_mul_of_signed _ rfl

end Word

end TaggedWord
