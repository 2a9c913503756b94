/-! # Binary floating-point numbers of 64 bits

A number is its bit pattern. Every number other than NaN is a whole number of quanta of `2^-1074`,
the least positive number, so comparing, adding and rounding are done exactly on integers.

* **`Binary64.rank`** — the low 63 bits of the pattern. They count the magnitudes upwards: rank 0 is
  zero, rank 1 the least positive number, and the last rank that is a number is infinity.
* **`Binary64.quanta : Int`** — the value of a number in quanta. The two zeros have the same value,
  and infinity stands for `2^1024`.
* **`Binary64.nearestRank num den`** — the rank of the magnitude nearest to `num / den` quanta, a
  tie going to the even pattern. All roundings go through it.
* **`Binary64.ofInt`**, **`Binary64.add`**, **`Binary64.wholePart`** — conversions and the sum. -/

namespace TaggedWord

/-- **A floating-point number** of 64 bits: a sign bit, eleven bits of exponent, 52 of fraction. -/
structure Binary64 where
  /-- The bit pattern. -/
  bits : BitVec 64
  deriving DecidableEq, Repr

namespace Binary64

/-! ## Magnitudes -/

/-- The number of quanta in one, `2^1074`. -/
def quantaPerUnit : Nat := 1 <<< 1074

/-- The number of ranks between two powers of two, `2^52`. -/
def blockSize : Nat := 0x10000000000000

/-- The weight of the sign bit in a pattern, `2^63`. -/
def signWeight : Nat := 0x8000000000000000

/-- The rank of infinity. Larger ranks are no numbers. -/
def infinityRank : Nat := 0x7FF0000000000000

/-- **The magnitude of a rank in quanta.** The ranks below `2^53` are their own magnitudes; from
there on each block of `2^52` ranks doubles the distance between neighbours. -/
def quantaOfRank (r : Nat) : Nat :=
  if r < blockSize then r else (blockSize + r % blockSize) <<< (r / blockSize - 1)

/-! ## Reading a pattern -/

/-- Whether the sign bit is set, as it is in the negative zero. -/
def signBit (x : Binary64) : Bool := x.bits.msb

/-- The position of the magnitude of a number among all magnitudes. -/
def rank (x : Binary64) : Nat := x.bits.toNat % signWeight

/-- Whether a pattern is no number. -/
def isNaN (x : Binary64) : Bool := infinityRank < x.rank

/-- Whether a number is one of the two infinities. -/
def isInfinite (x : Binary64) : Bool := x.rank == infinityRank

/-- **The value of a number in quanta.** It means nothing for NaN. -/
def quanta (x : Binary64) : Int :=
  if x.signBit then -(quantaOfRank x.rank : Int) else quantaOfRank x.rank

/-- The number with a given sign bit and rank. -/
def ofRank (signBit : Bool) (r : Nat) : Binary64 :=
  ⟨BitVec.ofNat 64 (if signBit then signWeight + r else r)⟩

/-- No number. -/
def nan : Binary64 := ⟨0x7FF8000000000000⟩

/-- One. -/
def one : Binary64 := ⟨0x3FF0000000000000⟩

/-- Zero with a clear sign bit. -/
def zero : Binary64 := ⟨0⟩

/-- `2^63`. -/
def twoPow63 : Binary64 := ⟨0x43E0000000000000⟩

/-- `2^64`. -/
def twoPow64 : Binary64 := ⟨0x43F0000000000000⟩

instance : Inhabited Binary64 := ⟨zero⟩

/-! ## Order -/

/-- **Numeric equality**: NaN equals nothing, and the two zeros are equal. -/
def eqv (x y : Binary64) : Bool := !x.isNaN && !y.isNaN && x.quanta == y.quanta

/-- **Strictly below.** NaN is below nothing, and nothing is below it. -/
def lt (x y : Binary64) : Bool := !x.isNaN && !y.isNaN && x.quanta < y.quanta

/-- **Below or equal.** NaN is in no such relation. -/
def le (x y : Binary64) : Bool := !x.isNaN && !y.isNaN && x.quanta ≤ y.quanta

/-! ## Rounding -/

/-- **The whole number nearest to `num / den`**, the even one of two equally near. -/
def divHalfEven (num den : Nat) : Nat :=
  let quotient := num / den
  let rest := num % den
  if 2 * rest < den || (2 * rest == den && quotient % 2 == 0) then quotient else quotient + 1

/-- **The rank nearest to `num / den` quanta.** A quotient of more than 53 bits is cut to 53 by a
power of two; rounding the cut quotient carries into the next block of ranks by itself, and what is
too large for a finite number is infinity. -/
def nearestRank (num den : Nat) : Nat :=
  let cut := (num / den).log2 - 52
  min (cut * blockSize + divHalfEven num (den <<< cut)) infinityRank

/-- The number nearest to a whole number of quanta; `zeroSign` is the sign bit of a zero. -/
def ofQuanta (zeroSign : Bool) (q : Int) : Binary64 :=
  ofRank (if q = 0 then zeroSign else q < 0) (nearestRank q.natAbs 1)

/-- **The number nearest to an integer.** -/
def ofInt (n : Int) : Binary64 := ofQuanta false (n * quantaPerUnit)

/-! ## Arithmetic -/

/-- The number with the other sign bit. -/
def neg (x : Binary64) : Binary64 := ⟨x.bits ^^^ 0x8000000000000000⟩

/-- Negation changes the sign bit. -/
@[simp] theorem signBit_neg (x : Binary64) : x.neg.signBit = !x.signBit := by
  rw [signBit, neg, BitVec.msb_xor, signBit]
  cases x.bits.msb <;> decide

/-- Negation keeps the magnitude. -/
@[simp] theorem rank_neg (x : Binary64) : x.neg.rank = x.rank := by
  have hmod := Nat.xor_mod_two_pow (a := x.bits.toNat) (b := 0x8000000000000000) (n := 63)
  rw [rank, neg, BitVec.toNat_xor, rank, signWeight]
  simpa using hmod

/-- Negation takes NaN to NaN, and numbers to numbers. -/
@[simp] theorem isNaN_neg (x : Binary64) : x.neg.isNaN = x.isNaN := by
  rw [isNaN, rank_neg, isNaN]

/-- Negation negates the value. -/
@[simp] theorem quanta_neg (x : Binary64) : x.neg.quanta = -x.quanta := by
  rw [quanta, signBit_neg, rank_neg, quanta]
  cases x.signBit with
  | false => rfl
  | true => exact (Int.neg_neg _).symm

@[simp] theorem quanta_zero : zero.quanta = 0 := by decide

/-- The negation of a number below zero is not below zero. -/
theorem lt_zero_neg {x : Binary64} (h : x.lt zero = true) : x.neg.lt zero = false := by
  simp only [lt, Bool.and_eq_true, decide_eq_true_iff, quanta_zero] at h
  simp only [lt, isNaN_neg, quanta_neg, quanta_zero]
  rw [decide_eq_false (by omega), Bool.and_false]

/-- **The rounded sum.** Opposite infinities have no sum; an exact sum of zero is the negative zero
only if both operands are. -/
def add (x y : Binary64) : Binary64 :=
  if x.isNaN || y.isNaN then nan
  else if x.isInfinite then (if y.isInfinite && x.signBit != y.signBit then nan else x)
  else if y.isInfinite then y
  else ofQuanta (x.signBit && y.signBit) (x.quanta + y.quanta)

/-- **The whole part of a number** that is not negative. -/
def wholePart (x : Binary64) : Nat := x.quanta.toNat / quantaPerUnit

/-! ## Numbers of 32 bits -/

/-- **A number of 32 bits in the wider format.** Its pattern has eight bits of exponent and 23 of
fraction, and its quantum is `2^-149`. Every such number is also one of 64 bits, so nothing is
rounded. -/
def ofBinary32 (x : BitVec 32) : Binary64 :=
  let r := x.toNat % 0x80000000
  if 0x7F800000 < r then nan
  else if r = 0x7F800000 then ofRank x.msb infinityRank
  else
    let q := if r < 0x800000 then r else (0x800000 + r % 0x800000) <<< (r / 0x800000 - 1)
    ofRank x.msb (nearestRank (q <<< 925) 1)

end Binary64

end TaggedWord
