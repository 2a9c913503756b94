import TaggedWord.Word.Arith
import TaggedWord.Number.Binary64

/-! # Words and floating-point numbers

* **`Word.ofNumber`** — the whole part of a number, clamped to the range of a tag.
* **`Word.toNumber`** — the floating-point number nearest to the value of a word. -/

namespace TaggedWord.Word

/-- **The words that are settled before a number is cut**: zero for NaN, and the ends of the range
of the tag for numbers beyond them. Whether a number is above the signed range is decided on its
rounded sum with one; no number lies between `2^63 - 1024` and `2^63`, so the rounding decides as
the exact sum would. -/
def saturated? (tag : Signedness) (x : Binary64) : Option Word :=
  if x.isNaN then some (zero.retag tag)
  else match tag with
    | .unsigned =>
      if x.lt .zero then some unsignedZero
      else if Binary64.twoPow64.le x then some maxUnsignedValue
      else none
    | .signed =>
      if x.le Binary64.twoPow63.neg then some minValue
      else if Binary64.twoPow63.le (x.add .one) then some maxValue
      else none

/-- **The word of a number** under a tag: the number is cut to its whole part and clamped to the
range of the tag, and NaN gives zero. A negative number in range is converted by negating the word
of its negation. -/
def ofNumber (tag : Signedness) (x : Binary64) : Word :=
  match saturated? tag x with
  | some w => w
  | none =>
    if x.lt .zero then (ofNumber tag x.neg).neg else ⟨BitVec.ofNat 64 x.wholePart, tag⟩
termination_by if x.lt .zero then 1 else 0
decreasing_by
  rename_i h
  rw [Binary64.lt_zero_neg h, if_pos h, if_neg Bool.false_ne_true]
  exact Nat.one_pos

/-- **The number nearest to the value of a word**, ties going to the even pattern. -/
def toNumber (w : Word) : Binary64 := .ofInt w.value

end TaggedWord.Word
