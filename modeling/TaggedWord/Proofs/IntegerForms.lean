import TaggedWord.Datum
import TaggedWord.Proofs.ExactIntegers
import TaggedWord.Proofs.RoundTrip

/-! # The forms of an integer in data

A data format can hand over an integer as a machine integer, as a floating-point number or as a
decimal text. Machine integers keep their value and are signed as long as it fits, texts wrap, and
floating-point numbers are clamped. Between `-2^63` and `2^63` all forms of an integer make the same
word, and from there on up to `2^64` three different ones (`ofDatum_forms_of_integer`).

* **`Datum.integer?`** — the integer of a machine integer of at most 64 bits.
* **`Datum.IsFormOf`** — all forms of an integer. -/

namespace TaggedWord

/-! ## Forms -/

namespace Datum

/-- **The integer of a machine integer** of at most 64 bits. -/
def integer? : Datum → Option Int
  | signed _ n => some n.toInt
  | unsigned _ n => some n.toNat
  | _ => none

/-- **The forms of an integer**: machine integers, the decimal text, and a floating-point number if
the integer is one. -/
inductive IsFormOf : Datum → Int → Prop where
  | machine {d : Datum} {z : Int} (h : d.integer? = some z) : IsFormOf d z
  | text (z : Int) : IsFormOf (text (toString z)) z
  | float {x : Binary64} {z : Int} (hfinite : x.exponent < 2047) (hx : x.toRat = z) :
    IsFormOf (float x) z

end Datum

/-- Every width has at most 64 bits. -/
theorem Width.bits_le (width : Width) : width.bits ≤ 64 := by cases width <;> decide

/-- `(ofInt z).text = toString z`: the decimal text of an integer is its canonical numeral. -/
theorem Numeral.text_ofInt (z : Int) : (ofInt z).text = toString z := by
  rw [text, chars, minuses_ofInt, digits_ofInt, Int.toString_eq_repr, Int.repr_eq_if]
  by_cases hz : z < 0
  · have habs : (-z).toNat = z.natAbs := by omega
    rw [if_pos hz, if_neg (Int.not_le.mpr hz), habs, String.ofList_append]
    rfl
  · have habs : z.toNat = z.natAbs := by omega
    rw [if_neg hz, if_pos (Int.not_lt.mp hz), habs]
    rfl

namespace Word

/-! ## Machine integers -/

/-- `ofSigned x` is the signed word of the integer of `x`. -/
theorem ofSigned_eq_ofInt {n : Nat} (x : BitVec n) : ofSigned x = ofInt .signed x.toInt := rfl

/-- `ofUnsigned x` is the unsigned word of the natural number of `x`. -/
theorem ofUnsigned_eq_ofInt {n : Nat} (x : BitVec n) : ofUnsigned x = ofInt .unsigned x.toNat := by
  rw [ofInt, BitVec.ofInt_natCast, BitVec.ofNat_toNat, ofUnsigned]

/-- `x.toInt` is in the signed range for patterns of at most 64 bits. -/
theorem inRange_toInt {n : Nat} (hn : n ≤ 64) (x : BitVec n) :
    Signedness.signed.InRange x.toInt := by
  have hvalue : (ofSigned x).value = x.toInt := BitVec.toInt_signExtend_of_le hn
  rw [← hvalue]
  exact inRange_value (ofSigned x)

/-- `x.toNat` is in the unsigned range for patterns of at most 64 bits. -/
theorem inRange_toNat {n : Nat} (hn : n ≤ 64) (x : BitVec n) :
    Signedness.unsigned.InRange x.toNat := by
  have hvalue : (ofUnsigned x).value = x.toNat :=
    congrArg Int.ofNat (BitVec.toNat_setWidth_of_le hn)
  rw [← hvalue]
  exact inRange_value (ofUnsigned x)

/-- The tag of the word of a machine integer: signed as long as the integer fits. -/
def fittingTag (z : Int) : Signedness := if z < 2 ^ 63 then .signed else .unsigned

/-- `fittingTag z = .unsigned ↔ 2 ^ 63 ≤ z`. -/
theorem fittingTag_eq_unsigned_iff (z : Int) : fittingTag z = .unsigned ↔ 2 ^ 63 ≤ z := by
  rw [fittingTag, ← Int.not_lt]
  simp

/-- Every integer in `[-2^63, 2^64)` is in the range of its `fittingTag`. -/
theorem inRange_fittingTag {z : Int} (hlo : -2 ^ 63 ≤ z) (hhi : z < 2 ^ 64) :
    (fittingTag z).InRange z := by
  rw [fittingTag]
  by_cases hz : z < 2 ^ 63
  · rw [if_pos hz]
    exact ⟨hlo, hz⟩
  · rw [if_neg hz]
    exact ⟨by omega, hhi⟩

/-- `ofMachineNat x` is the word of the natural number of `x` under the tag that fits it. -/
theorem ofMachineNat_eq_ofInt {n : Nat} (hn : n ≤ 64) (x : BitVec n) :
    ofMachineNat x = ofInt (fittingTag x.toNat) x.toNat := by
  have hrange := inRange_toNat hn x
  have htop : (ofUnsigned x).topBit = decide ((2 : Int) ^ 63 ≤ x.toNat) := by
    have hbits : (ofUnsigned x).bits.toNat = x.toNat := BitVec.toNat_setWidth_of_le hn
    rw [topBit, BitVec.msb_eq_decide, hbits, decide_eq_decide]
    omega
  rw [ofMachineNat, htop, ofUnsigned_eq_ofInt, fittingTag]
  by_cases hx : (2 : Int) ^ 63 ≤ x.toNat
  · rw [if_pos (decide_eq_true hx), if_neg (Int.not_lt.mpr hx)]
  · rw [if_neg (by simpa using hx), if_pos (Int.not_le.mp hx), toSigned, retag_ofInt]

end Word

/-- Some datum carries `z` as its `integer?` iff `z` lies in `[-2^63, 2^64)`. -/
theorem Datum.exists_integer?_eq_some_iff (z : Int) :
    (∃ d : Datum, d.integer? = some z) ↔ -2 ^ 63 ≤ z ∧ z < 2 ^ 64 := by
  constructor
  · rintro ⟨d, hd⟩
    cases d with
    | signed width n =>
      obtain rfl : n.toInt = z := Option.some.inj hd
      exact (Word.inRange_toInt width.bits_le n).bounds
    | unsigned width n =>
      obtain rfl : (n.toNat : Int) = z := Option.some.inj hd
      exact (Word.inRange_toNat width.bits_le n).bounds
    | _ => cases hd
  · rintro ⟨hlo, hhi⟩
    by_cases hz : z < 2 ^ 63
    · have hrange : Signedness.signed.InRange z := ⟨hlo, hz⟩
      exact ⟨signed .w64 (BitVec.ofInt 64 z), congrArg some (Word.value_ofInt hrange)⟩
    · have hrange : Signedness.unsigned.InRange z := ⟨by omega, hhi⟩
      exact ⟨unsigned .w64 (BitVec.ofInt 64 z), congrArg some (Word.value_ofInt hrange)⟩

namespace Word

/-! ## Words of the forms -/

/-- **The word of a machine integer**: `ofDatum d` has the value that `d` carries, and is signed as
long as the value fits. -/
theorem ofDatum_of_integer? {d : Datum} {z : Int} (h : d.integer? = some z) :
    ofDatum d = .ok (ofInt (fittingTag z) z) := by
  cases d with
  | signed width n =>
    obtain rfl : n.toInt = z := Option.some.inj h
    rw [ofDatum, ofSigned_eq_ofInt, fittingTag, if_pos (inRange_toInt width.bits_le n).2]
  | unsigned width n =>
    obtain rfl : (n.toNat : Int) = z := Option.some.inj h
    rw [ofDatum, ofMachineNat_eq_ofInt width.bits_le]
  | _ => cases h

/-- **The word of the decimal text** `toString z` is the signed one that `z` wraps to. -/
theorem ofDatum_text (z : Int) : ofDatum (.text (toString z)) = .ok (ofInt .signed z) := by
  rw [ofDatum, ofText, ← Numeral.text_ofInt, parse?_text, Numeral.value_ofInt]

/-- **The word of an integer as a floating-point number** is the signed one of
`Signedness.signed.clamp z`. -/
theorem ofDatum_float {x : Binary64} {z : Int} (hfinite : x.exponent < 2047) (hx : x.toRat = z) :
    ofDatum (.float x) = .ok (ofInt .signed (Signedness.signed.clamp z)) := by
  rw [ofDatum, ofNumber_eq_ofInt_clamp .signed (Binary64.isNaN_of_exponent_lt hfinite), hx,
    truncate_intCast]

/-- `ofDatum` makes the signed word of `z` of all forms of an integer in the signed range. -/
theorem ofDatum_of_isFormOf {d : Datum} {z : Int} (h : d.IsFormOf z)
    (hz : Signedness.signed.InRange z) : ofDatum d = .ok (ofInt .signed z) := by
  cases h with
  | machine h => rw [ofDatum_of_integer? h, fittingTag, if_pos hz.2]
  | text => exact ofDatum_text z
  | float hfinite hx => rw [ofDatum_float hfinite hx, hz.clamp_eq]

/-- `maxValue` equals no word with the pattern of an integer in `[2^63, 2^64)`. -/
theorem maxValue_eqv_ofInt (tag : Signedness) {z : Int} (hlo : 2 ^ 63 ≤ z) (hhi : z < 2 ^ 64) :
    maxValue.eqv (ofInt tag z) = false := by
  refine Bool.eq_false_iff.mpr ?_
  intro heq
  have hmax : maxValue.bits.toNat = 2 ^ 63 - 1 := by decide
  have hbits := asUnsigned_ofInt tag z
  rw [asUnsigned, ← bits_eq_of_eqv heq, hmax] at hbits
  omega

/-- The two words of an integer in `[2^63, 2^64)` are not equal: the signed one is below zero. -/
theorem unsigned_eqv_signed_ofInt {z : Int} (hlo : 2 ^ 63 ≤ z) (hhi : z < 2 ^ 64) :
    (ofInt .unsigned z).eqv (ofInt .signed z) = false := by
  refine Bool.eq_false_iff.mpr ?_
  intro heq
  have hunsigned : (ofInt .unsigned z).value = z := value_ofInt ⟨by omega, hhi⟩
  have hsigned : (ofInt .signed z).value < 2 ^ 63 := (inRange_value (ofInt .signed z)).2
  rw [← (eqv_iff_value_eq _ _).mp heq, hunsigned] at hsigned
  omega

/-! ## Agreement and divergence -/

/-- **The forms of one integer.** `ofDatum` makes of all machine integers that carry `z` the word of
this value, which is unsigned from `2^63` on; they carry the integers in `[-2^63, 2^64)`. Of the
decimal text `toString z` it makes the signed word that `z` wraps to, and of a floating-point number
that is `z` the signed word of `z` clamped to the signed range. So all forms of an integer in the
signed range make the same word. From `2^63` up to `2^64` machine integers and texts make words with
the same pattern that are not equal, and floating-point numbers make `maxValue`, which equals
neither. -/
theorem ofDatum_forms_of_integer (z : Int) :
    ((∃ d : Datum, d.integer? = some z) ↔ -2 ^ 63 ≤ z ∧ z < 2 ^ 64) ∧
    (-2 ^ 63 ≤ z → z < 2 ^ 64 → ∃ w : Word, w.value = z ∧ (w.tag = .unsigned ↔ 2 ^ 63 ≤ z) ∧
      ∀ d : Datum, d.integer? = some z → ofDatum d = .ok w) ∧
    (∃ w : Word, ofDatum (.text (toString z)) = .ok w ∧ w.tag = .signed ∧
      (w.asUnsigned : Int) = z % 2 ^ 64) ∧
    (∀ x : Binary64, x.exponent < 2047 → x.toRat = z →
      ∃ w : Word, ofDatum (.float x) = .ok w ∧ w.tag = .signed ∧
        w.value = max (-2 ^ 63) (min z (2 ^ 63 - 1))) ∧
    (-2 ^ 63 ≤ z → z < 2 ^ 63 → ∃ w : Word, ∀ d : Datum, d.IsFormOf z → ofDatum d = .ok w) ∧
    (2 ^ 63 ≤ z → z < 2 ^ 64 → ∃ v w : Word,
      (∀ d : Datum, d.integer? = some z → ofDatum d = .ok v) ∧
      ofDatum (.text (toString z)) = .ok w ∧ v.bits = w.bits ∧ v.eqv w = false ∧
      (∀ x : Binary64, x.exponent < 2047 → x.toRat = z → ofDatum (.float x) = .ok maxValue) ∧
      maxValue.eqv v = false ∧ maxValue.eqv w = false) := by
  refine ⟨Datum.exists_integer?_eq_some_iff z, ?_, ?_, ?_, ?_, ?_⟩
  · intro hlo hhi
    exact ⟨_, value_ofInt (inRange_fittingTag hlo hhi), fittingTag_eq_unsigned_iff z,
      fun d => ofDatum_of_integer?⟩
  · exact ⟨_, ofDatum_text z, rfl, asUnsigned_ofInt .signed z⟩
  · intro x hfinite hx
    exact ⟨_, ofDatum_float hfinite hx, rfl, value_ofInt (Signedness.signed.inRange_clamp z)⟩
  · intro hlo hhi
    exact ⟨_, fun d hd => ofDatum_of_isFormOf hd ⟨hlo, hhi⟩⟩
  · intro hlo hhi
    have htag : fittingTag z = .unsigned := (fittingTag_eq_unsigned_iff z).mpr hlo
    have hclamp : Signedness.signed.clamp z = 2 ^ 63 - 1 :=
      Signedness.clamp_of_greatest_le (by rw [Signedness.greatest]; omega)
    refine ⟨ofInt .unsigned z, ofInt .signed z, ?_, ofDatum_text z, rfl,
      unsigned_eqv_signed_ofInt hlo hhi, ?_, maxValue_eqv_ofInt _ hlo hhi,
      maxValue_eqv_ofInt _ hlo hhi⟩
    · intro d hd
      rw [ofDatum_of_integer? hd, htag]
    · -- the greatest signed integer is the value of the greatest signed word
      intro x hfinite hx
      rw [ofDatum_float hfinite hx, hclamp]
      decide

/-- All forms of `-5` make one word; the forms of `2^63` make three. -/
theorem ofDatum_forms_of_two_integers :
    ofDatum (.signed .w8 0xFB) = ofDatum (.text "-5") ∧
    ∃ v w : Word, ofDatum (.unsigned .w64 0x8000000000000000) = .ok v ∧
      ofDatum (.text "9223372036854775808") = .ok w ∧ v.bits = w.bits ∧ v.eqv w = false ∧
      ofDatum (.float .twoPow63) = .ok maxValue := by
  constructor
  · obtain ⟨w, hw⟩ := (ofDatum_forms_of_integer (-5)).2.2.2.2.1 (by decide) (by decide)
    have htext : toString (-5 : Int) = "-5" := by decide +kernel
    have hread := hw _ (.text (-5))
    rw [htext] at hread
    rw [hw _ (.machine rfl), hread]
  · obtain ⟨v, w, hmachine, hread, hbits, hne, hfloat, -⟩ :=
      (ofDatum_forms_of_integer (2 ^ 63)).2.2.2.2.2 (by decide) (by decide)
    have htext : toString (2 ^ 63 : Int) = "9223372036854775808" := by decide +kernel
    rw [htext] at hread
    refine ⟨v, w, hmachine _ rfl, hread, hbits, hne, hfloat _ (by decide) ?_⟩
    rw [Binary64.toRat_twoPow63]
    norm_num

end Word

end TaggedWord
