import TaggedWord.Proofs.Wrapping
import Mathlib.Logic.Function.Iterate

/-! # Left shifts by counts of any size

The count of a shift is a word. Of it only the lower half is looked at, extended by the tag to a
machine integer of 64 bits and masked to six bits. What is left is the residue modulo 64 of the
number that the count denotes, for negative counts too, so a shift is a product with a power of two,
and no shift moves a word by 64 places or more (`shiftLeft_of_any_count`).

* **`Word.places`** — the residue of a count, with `shiftAmount_eq_places` for the way through the
  lower half and `toNat_low32_and` for the mask.
* **`Word.double`** — a word added to itself, which is a shift by one place (`iterate_double`).
* **`mul_one_shiftLeft_eq_iff`** — where the product with a shifted one has the tag of the shift
  too. -/

namespace TaggedWord.Word

/-! ## Counts -/

/-- **The places of a count**: the residue of the number that it denotes modulo 64, in `0 … 63`. -/
def places (count : Word) : Nat := (count.value % 64).toNat

/-- `count.places < 64`. -/
theorem places_lt (count : Word) : count.places < 64 := by
  rw [places]
  omega

/-- `count.asUnsigned % 64 = count.places`: a pattern determines its residue, as 64 divides
`2^64`. -/
theorem asUnsigned_mod_eq_places (count : Word) : count.asUnsigned % 64 = count.places := by
  have hbits := asUnsigned_ofInt count.tag count.value
  rw [ofInt_value] at hbits
  rw [places]
  omega

/-- **A shift moves a word by the places of the count**: `count.shiftAmount = count.places`. -/
theorem shiftAmount_eq_places (count : Word) : count.shiftAmount = count.places := by
  rw [shiftAmount_eq, asUnsigned_mod_eq_places]

/-- **The mask `63#64` finds the places of a count** in its lower half `low32`, whether that is
extended by zeros or by its sign. -/
theorem toNat_low32_and (count : Word) :
    (BitVec.ofInt 64 count.low32 &&& 63#64).toNat = count.places := by
  have hmask : (63#64).toNat = 2 ^ 6 - 1 := by decide
  have hplaces := count.shiftAmount_eq_places
  rw [shiftAmount] at hplaces
  rw [BitVec.toNat_and, hmask, Nat.and_two_pow_sub_one_eq_mod, BitVec.toNat_ofInt, ← hplaces]
  omega

/-- `(ofInt tag z).places` is the residue of `z` modulo 64, under either tag. -/
theorem places_ofInt (tag : Signedness) (z : Int) : (ofInt tag z).places = (z % 64).toNat := by
  have hbits := asUnsigned_ofInt tag z
  rw [← asUnsigned_mod_eq_places]
  omega

/-! ## Products with powers of two -/

/-- **A shift multiplies by a power of two**: `(x.shiftLeft count).asUnsigned` is the pattern of `x`
times `2 ^ count.places`, modulo `2^64`. -/
theorem asUnsigned_shiftLeft (x count : Word) :
    (x.shiftLeft count).asUnsigned = x.asUnsigned * 2 ^ count.places % 2 ^ 64 := by
  rw [asUnsigned, bits_shiftLeft, shiftAmount_eq_places, BitVec.toNat_shiftLeft, Nat.shiftLeft_eq,
    asUnsigned]

/-- `x.mul (one.shiftLeft count)` has the pattern of the shift, also where the shifted one is
`minValue` and a rule settles the product. -/
theorem bits_mul_one_shiftLeft (x count : Word) :
    (x.mul (one.shiftLeft count)).bits = (x.shiftLeft count).bits := by
  have hone : (one.shiftLeft count).bits = BitVec.twoPow 64 count.shiftAmount := by
    rw [bits_shiftLeft, BitVec.twoPow_eq]
    rfl
  rw [bits_mul, hone, ← BitVec.shiftLeft_eq_mul_twoPow, bits_shiftLeft]

/-- `one.shiftLeft count` is the power of two `2 ^ count.places`. -/
theorem asUnsigned_one_shiftLeft (count : Word) :
    (one.shiftLeft count).asUnsigned = 2 ^ count.places := by
  have hlt : 2 ^ count.places < 2 ^ 64 := Nat.pow_lt_pow_right (by decide) count.places_lt
  have hone : one.asUnsigned = 1 := by decide
  rw [asUnsigned_shiftLeft, hone, Nat.one_mul, Nat.mod_eq_of_lt hlt]

/-- `one.shiftLeft count` is not zero: no count shifts the bit out. -/
theorem isZero_one_shiftLeft (count : Word) : (one.shiftLeft count).isZero = false := by
  have hpow := asUnsigned_one_shiftLeft count
  have hpos : 0 < 2 ^ count.places := Nat.two_pow_pos _
  refine beq_eq_false_iff_ne.mpr fun hzero => ?_
  rw [asUnsigned, hzero] at hpow
  exact absurd hpow hpos.ne

/-- `one.shiftLeft count = minValue` for 63 places only. -/
theorem one_shiftLeft_eq_minValue_iff (count : Word) :
    one.shiftLeft count = minValue ↔ count.places = 63 := by
  constructor
  · intro h
    have hpow := asUnsigned_one_shiftLeft count
    have hmin : minValue.asUnsigned = 2 ^ 63 := by decide
    rw [h, hmin] at hpow
    exact (Nat.pow_right_injective (Nat.le_refl 2) hpow).symm
  · intro h
    rw [shiftLeft, shiftAmount_eq_places, h]
    decide

/-- **Where a shift is the whole product** `x.mul (one.shiftLeft count)`, tag included: for signed
words, and for words other than zero as long as they are not shifted by 63 places. -/
theorem mul_one_shiftLeft_eq_iff (x count : Word) :
    x.mul (one.shiftLeft count) = x.shiftLeft count ↔
      x.tag = .signed ∨ x.isZero = false ∧ count.places ≠ 63 := by
  have htag : x.mul (one.shiftLeft count) = x.shiftLeft count ↔
      (x.mul (one.shiftLeft count)).tag = x.tag :=
    ⟨fun h => by rw [h, tag_shiftLeft], fun h => Word.ext (bits_mul_one_shiftLeft x count) h⟩
  simp only [htag, tag_mul, isZero_one_shiftLeft, ne_eq, one_shiftLeft_eq_minValue_iff]
  cases x.tag <;> simp

/-! ## Doubling -/

/-- **A word added to itself.** -/
def double (x : Word) : Word := x.add x

/-- `x.double` is `x` shifted by one place. -/
theorem double_eq (x : Word) : x.double = ⟨x.bits <<< 1, x.tag⟩ := by
  ext1
  · rw [double, bits_add, ← BitVec.mul_two, BitVec.shiftLeft_eq_mul_twoPow]
    rfl
  · rfl

/-- **Doubling again and again**: `double^[n] x` is `x` shifted by `n` places. -/
theorem iterate_double (n : Nat) (x : Word) : double^[n] x = ⟨x.bits <<< n, x.tag⟩ := by
  induction n with
  | zero => rw [Function.iterate_zero_apply, BitVec.shiftLeft_zero]
  | succ n ih =>
    rw [Function.iterate_succ_apply', ih, double_eq, ← BitVec.shiftLeft_add]

/-- `x.shiftLeft count` is `x` doubled `count.places` times. -/
theorem shiftLeft_eq_iterate_double (x count : Word) :
    x.shiftLeft count = double^[count.places] x := by
  rw [iterate_double, shiftLeft, shiftAmount_eq_places]

/-! ## Two shifts -/

/-- **Two shifts in a row** are one shift by `a.places + b.places`. If the sum reaches 64 they leave
no bit, whereas the count of a single shift would start over from zero there. -/
theorem shiftLeft_shiftLeft (x a b : Word) (tag : Signedness) :
    (x.shiftLeft a).shiftLeft b
      = if a.places + b.places < 64 then x.shiftLeft (ofInt tag (a.places + b.places))
        else ⟨0, x.tag⟩ := by
  have hboth : (x.shiftLeft a).shiftLeft b = ⟨x.bits <<< (a.places + b.places), x.tag⟩ := by
    rw [shiftLeft, shiftLeft, shiftAmount_eq_places, shiftAmount_eq_places, BitVec.shiftLeft_add]
  rw [hboth]
  split
  · have hsum : (ofInt tag (a.places + b.places)).places = a.places + b.places := by
      rw [places_ofInt]
      omega
    rw [shiftLeft, shiftAmount_eq_places, hsum]
  · rename_i hlarge
    rw [BitVec.shiftLeft_eq_zero (Nat.not_lt.mp hlarge)]
    rfl

/-- By `-1` and by one, which are 63 places and one, a word is moved out altogether, and by 64 it is
left as it is. -/
example : (one.shiftLeft (ofInt .signed (-1))).shiftLeft one = zero ∧
    one.shiftLeft (ofInt .signed 64) = one := by decide

/-- **Shifts by any count.** `x.shiftLeft c` keeps the tag of `x` and multiplies its pattern by the
power of two that `c.places` gives, the residue of the count modulo 64. Its pattern is that of
`x.mul (one.shiftLeft c)`, and the whole words are the same exactly if `x` is signed, or is not zero
and is not shifted by 63 places. It is also `x` doubled as many times. The number of places is what
a mask of six bits leaves of `c.low32`, which never reaches 64. Two shifts in a row are one shift by
the sum of the places if that is below 64, and leave no bit if it is not. -/
theorem shiftLeft_of_any_count (x : Word) :
    (∀ c : Word,
      (x.shiftLeft c).tag = x.tag ∧
      (x.shiftLeft c).asUnsigned = x.asUnsigned * 2 ^ c.places % 2 ^ 64 ∧
      (x.shiftLeft c).bits = (x.mul (one.shiftLeft c)).bits ∧
      (x.mul (one.shiftLeft c) = x.shiftLeft c ↔
        x.tag = .signed ∨ x.isZero = false ∧ c.places ≠ 63) ∧
      x.shiftLeft c = double^[c.places] x ∧
      c.shiftAmount = (BitVec.ofInt 64 c.low32 &&& 63#64).toNat ∧
      c.shiftAmount < 64) ∧
    ∀ (a b : Word) (tag : Signedness),
      (x.shiftLeft a).shiftLeft b
        = if a.places + b.places < 64 then x.shiftLeft (ofInt tag (a.places + b.places))
          else ⟨0, x.tag⟩ := by
  refine ⟨fun c => ?_, fun a b tag => shiftLeft_shiftLeft x a b tag⟩
  refine ⟨rfl, asUnsigned_shiftLeft x c, (bits_mul_one_shiftLeft x c).symm,
    mul_one_shiftLeft_eq_iff x c, shiftLeft_eq_iterate_double x c, ?_, shiftAmount_lt c⟩
  rw [toNat_low32_and, shiftAmount_eq_places]

end TaggedWord.Word
