import TaggedWord.Proofs.Reading
import TaggedWord.Proofs.Truncation
import TaggedWord.Value

/-! # Masks of every kind

The bitwise operations take a word, a decimal text or a floating-point number as mask. Whatever
stands for one integer in the signed range acts as one pattern; from `2^63` on words and texts still
do, and numbers are clamped (`actsAs_of_denotes`). A value that stands for no word makes the signed
zero of any word, which shows in the tag if that word is unsigned.

* **`Value.Denotes`** — the values that stand for an integer.
* **`Value.IsUnconvertible`** — the values that stand for no word.
* **`Value.ActsAs`** — the pattern that a value is as a mask. -/

namespace TaggedWord

namespace Value

/-! ## What values stand for -/

/-- **The values that stand for an integer**: the words that denote it, under either tag; all
numerals that spell it, with any zeros in front and any minus signs that cancel; and the
floating-point numbers that are this integer. -/
inductive Denotes : Value → Int → Prop where
  | word {w : Word} {z : Int} (hw : w.value = z) : Denotes (word w) z
  | text {n : Numeral} {z : Int} (hn : n.value = z) : Denotes (text n.text) z
  | number {x : Binary64} {z : Int} (hfinite : x.exponent < 2047) (hx : x.toRat = z) :
    Denotes (number x) z

/-- **The values that stand for no word**: those that are no number, text or word, and the texts
that are no numeral. -/
inductive IsUnconvertible : Value → Prop where
  | undefined : IsUnconvertible undefined
  | null : IsUnconvertible null
  | bool (b : Bool) : IsUnconvertible (bool b)
  | text {s : String} (hs : ∀ n : Numeral, s ≠ n.text) : IsUnconvertible (text s)

/-- **Coercion fails for the values that stand for no word**, and for no others:
`v.toWord? tag = none` iff `v.IsUnconvertible`. -/
theorem toWord?_eq_none_iff (tag : Signedness) (v : Value) :
    v.toWord? tag = none ↔ v.IsUnconvertible := by
  cases v with
  | undefined => exact iff_of_true rfl .undefined
  | null => exact iff_of_true rfl .null
  | bool b => exact iff_of_true rfl (.bool b)
  | number x => exact iff_of_false (by simp [toWord?]) (by rintro ⟨⟩)
  | word w => exact iff_of_false (by simp [toWord?]) (by rintro ⟨⟩)
  | text s =>
    rw [toWord?, Word.parse?_eq_none_iff]
    refine ⟨.text, ?_⟩
    intro h
    cases h with
    | text hs => exact hs

/-! ## What values do as masks -/

/-- **The pattern that a value is as a mask**: every word is met or joined with this pattern, and
keeps its own tag. -/
def ActsAs (v : Value) (m : BitVec 64) : Prop :=
  ∀ x : Word, x.andValue v = ⟨x.bits &&& m, x.tag⟩ ∧ x.orValue v = ⟨x.bits ||| m, x.tag⟩

/-- A value `v` with the word `w` under `toWord?` acts as `w.bits`. -/
theorem actsAs_of_toWord? {v : Value} {w : Word} (h : v.toWord? .signed = some w) :
    v.ActsAs w.bits := by
  intro x
  rw [Word.andValue, Word.orValue, h]
  exact ⟨rfl, rfl⟩

/-- The words of an integer act as its pattern, under either tag. -/
theorem actsAs_word {w : Word} {z : Int} (hw : w.value = z) :
    (word w).ActsAs (BitVec.ofInt 64 z) := by
  have hbits : w.bits = BitVec.ofInt 64 z := by
    rw [← hw, ← Word.bits_ofInt w.tag, Word.ofInt_value]
  rw [← hbits]
  exact actsAs_of_toWord? rfl

/-- All spellings of an integer act as its pattern `BitVec.ofInt 64 z`, however large it is. -/
theorem actsAs_text {n : Numeral} {z : Int} (hn : n.value = z) :
    (text n.text).ActsAs (BitVec.ofInt 64 z) := by
  have hword : (text n.text).toWord? .signed = some (Word.ofInt .signed z) := by
    rw [toWord?, Word.parse?_text, hn]
  exact actsAs_of_toWord? hword

/-- A number that is an integer acts as the pattern of `Signedness.signed.clamp z`. -/
theorem actsAs_number {x : Binary64} {z : Int} (hfinite : x.exponent < 2047) (hx : x.toRat = z) :
    (number x).ActsAs (BitVec.ofInt 64 (Signedness.signed.clamp z)) := by
  have hword : (number x).toWord? .signed
      = some (Word.ofInt .signed (Signedness.signed.clamp z)) :=
    congrArg some (Word.ofNumber_of_toRat_eq .signed hfinite hx)
  exact actsAs_of_toWord? hword

/-- **All values that stand for one integer in the signed range act alike**: `v.Denotes z` gives
`v.ActsAs (BitVec.ofInt 64 z)`. -/
theorem actsAs_of_denotes {v : Value} {z : Int} (h : v.Denotes z)
    (hz : Signedness.signed.InRange z) : v.ActsAs (BitVec.ofInt 64 z) := by
  cases h with
  | word hw => exact actsAs_word hw
  | text hn => exact actsAs_text hn
  | number hfinite hx =>
    have hacts := actsAs_number hfinite hx
    rwa [hz.clamp_eq] at hacts

/-- From `2^63` on a number acts as `Word.maxValue`. -/
theorem actsAs_number_of_le {x : Binary64} {z : Int} (hfinite : x.exponent < 2047)
    (hx : x.toRat = z) (hz : 2 ^ 63 ≤ z) : (number x).ActsAs Word.maxValue.bits := by
  have hclamp : Signedness.signed.clamp z = Signedness.signed.greatest :=
    Signedness.clamp_of_greatest_le (by rw [Signedness.greatest]; omega)
  have hacts := actsAs_number hfinite hx
  rw [hclamp] at hacts
  exact hacts

/-! ## Values that are no mask -/

/-- `x.andValue v` and `x.orValue v` are the signed zero for a value that stands for no word. -/
theorem mask_of_isUnconvertible {v : Value} (h : v.IsUnconvertible) (x : Word) :
    x.andValue v = .zero ∧ x.orValue v = .zero := by
  rw [Word.andValue, Word.orValue, (toWord?_eq_none_iff .signed v).mpr h]
  exact ⟨rfl, rfl⟩

/-- `x.andValue v` and `x.orValue v` keep the tag of `x` for any other value. -/
theorem tag_mask_of_not_isUnconvertible {v : Value} (h : ¬v.IsUnconvertible) (x : Word) :
    (x.andValue v).tag = x.tag ∧ (x.orValue v).tag = x.tag := by
  cases hv : v.toWord? .signed with
  | none => exact absurd ((toWord?_eq_none_iff .signed v).mp hv) h
  | some w =>
    obtain ⟨hand, hor⟩ := actsAs_of_toWord? hv x
    rw [hand, hor]
    exact ⟨rfl, rfl⟩

/-- **On an unsigned word a failed coercion shows in the tag**: `x.andValue v` and `x.orValue v` are
signed iff `v.IsUnconvertible`. -/
theorem tag_mask_eq_signed_iff (v : Value) {x : Word} (hx : x.tag = .unsigned) :
    ((x.andValue v).tag = .signed ↔ v.IsUnconvertible) ∧
      ((x.orValue v).tag = .signed ↔ v.IsUnconvertible) := by
  by_cases h : v.IsUnconvertible
  · obtain ⟨hand, hor⟩ := mask_of_isUnconvertible h x
    rw [hand, hor]
    exact ⟨iff_of_true rfl h, iff_of_true rfl h⟩
  · obtain ⟨hand, hor⟩ := tag_mask_of_not_isUnconvertible h x
    rw [hand, hor, hx]
    exact ⟨iff_of_false (by decide) h, iff_of_false (by decide) h⟩

/-! ## Masks -/

/-- **What a value does as a mask.** All values with `v.Denotes z` for an integer in `[-2^63, 2^63)`
act as the pattern of `z` modulo `2^64`: under `andValue` and `orValue` a word keeps its tag and its
bits are met or joined with the pattern. From `2^63` up to `2^64` the words and texts of an integer
still do, and a number acts as `Word.maxValue`. A value that stands for no word gives the signed
zero, and any other one keeps the tag; so on an unsigned word the answer is signed exactly if
`v.toWord?` has failed. -/
theorem masks_of_integer :
    (∀ (z : Int) (v : Value), -2 ^ 63 ≤ z → z < 2 ^ 63 → v.Denotes z →
      v.ActsAs (BitVec.ofInt 64 z)) ∧
    (∀ z : Int, 2 ^ 63 ≤ z → z < 2 ^ 64 →
      (∀ w : Word, w.value = z → (word w).ActsAs (BitVec.ofInt 64 z)) ∧
      (∀ n : Numeral, n.value = z → (text n.text).ActsAs (BitVec.ofInt 64 z)) ∧
      ∀ y : Binary64, y.exponent < 2047 → y.toRat = z →
        (number y).ActsAs Word.maxValue.bits) ∧
    (∀ (v : Value) (x : Word),
      (v.IsUnconvertible → x.andValue v = .zero ∧ x.orValue v = .zero) ∧
      (¬v.IsUnconvertible → (x.andValue v).tag = x.tag ∧ (x.orValue v).tag = x.tag)) ∧
    ∀ (v : Value) (x : Word), x.tag = .unsigned →
      ((x.andValue v).tag = .signed ↔ v.toWord? .signed = none) ∧
      ((x.orValue v).tag = .signed ↔ v.toWord? .signed = none) := by
  refine ⟨?_, ?_, ?_, ?_⟩
  · intro z v hlo hhi h
    exact actsAs_of_denotes h ⟨hlo, hhi⟩
  · intro z hlo hhi
    refine ⟨fun w => actsAs_word, fun n => actsAs_text, ?_⟩
    intro y hfinite hy
    exact actsAs_number_of_le hfinite hy hlo
  · intro v x
    exact ⟨fun h => mask_of_isUnconvertible h x, fun h => tag_mask_of_not_isUnconvertible h x⟩
  · intro v x hx
    rw [toWord?_eq_none_iff]
    exact tag_mask_eq_signed_iff v hx

/-- Every mask for `-2^63` leaves the highest bit of the greatest unsigned word, and the number
`2^63` leaves all the others. A truth value is no mask, and neither is null, as the tag of the
answer tells. -/
theorem masks_of_two_integers :
    Word.maxUnsignedValue.andValue (word .minValue) = Word.minValue.toUnsigned ∧
    Word.maxUnsignedValue.andValue (text "---09223372036854775808") = Word.minValue.toUnsigned ∧
    Word.maxUnsignedValue.andValue (number Binary64.twoPow63.neg) = Word.minValue.toUnsigned ∧
    Word.maxUnsignedValue.andValue (number .twoPow63) = Word.maxValue.toUnsigned ∧
    Word.maxUnsignedValue.orValue (bool true) = .zero ∧
    (Word.maxUnsignedValue.orValue null).tag = .signed := by
  obtain ⟨hsmall, hlarge, hfailed, htag⟩ := masks_of_integer
  have hact {v : Value} (h : v.Denotes (-2 ^ 63)) :
      Word.maxUnsignedValue.andValue v = Word.minValue.toUnsigned := by
    rw [(hsmall _ v (by decide) (by decide) h Word.maxUnsignedValue).1]
    decide
  refine ⟨hact (.word (by decide)), hact ?_, hact ?_, ?_, ?_, ?_⟩
  · have hdigits : "09223372036854775808".toList.all Char.isDigit = true := by decide +kernel
    have hvalue : (-1) ^ 3 * (placeValue "09223372036854775808".toList : Int) = -2 ^ 63 := by
      decide +kernel
    exact .text (n := ⟨3, _, by decide, List.all_eq_true.mp hdigits⟩) hvalue
  · refine .number (by decide) ?_
    rw [Binary64.toRat_neg, Binary64.toRat_twoPow63]
    norm_num
  · have hnumber : Binary64.twoPow63.toRat = (2 ^ 63 : Int) := by
      rw [Binary64.toRat_twoPow63]
      norm_num
    exact ((hlarge _ (by decide) (by decide)).2.2 _ (by decide) hnumber _).1
  · exact ((hfailed _ _).1 (.bool true)).2
  · exact (htag null _ rfl).2.mpr rfl

end Value

end TaggedWord
