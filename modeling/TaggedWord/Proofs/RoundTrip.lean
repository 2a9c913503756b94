import TaggedWord.Proofs.Reading

/-! # Writing words and reading them back

A word is written as the canonical numeral of its value (`decimal_eq_text`), so writing and reading
undo each other: reading gives back every word that was written, and the texts that are written
again as they were read are the canonical numerals of the range of the tag. -/

namespace TaggedWord.Word

/-- `w.sign` is made of the minus signs of the canonical numeral `Numeral.ofInt w.value`. -/
theorem sign_eq_replicate (w : Word) :
    w.sign = List.replicate (Numeral.ofInt w.value).minuses '-' := by
  rw [sign, isNegative_eq_decide, Numeral.minuses_ofInt]
  by_cases h : w.value < 0
  · rw [if_pos h, if_pos (decide_eq_true h), List.replicate_one]
  · rw [if_neg h, if_neg (by simpa using h), List.replicate_zero]

/-- **A word is written as the canonical numeral of its value**: `w.decimal` is its text. -/
theorem decimal_eq_text (w : Word) : w.decimal = (Numeral.ofInt w.value).text := by
  rw [decimal, sign_eq_replicate, digits, Numeral.text, Numeral.chars, Numeral.digits_ofInt]

/-- What is written is read back with all its bits, under any tag. -/
@[simp] theorem parse?_decimal (tag : Signedness) (w : Word) :
    parse? tag w.decimal = some (w.retag tag) := by
  rw [decimal_eq_text, parse?_text, Numeral.value_ofInt, retag_eq_ofInt]

/-- A canonical numeral `n` in the range of a tag is read as a word whose `decimal` is `n.text`. -/
theorem decimal_ofInt_value {tag : Signedness} {n : Numeral} (hn : n.IsCanonical)
    (hrange : tag.InRange n.value) : (ofInt tag n.value).decimal = n.text := by
  rw [decimal_eq_text, Word.value_ofInt hrange, ← Numeral.eq_ofInt_of_isCanonical hn]

/-- **Writing and reading undo each other.** `parse? tag w.decimal` is the word with the pattern of
`w` and that tag, and so under `w.tag` it is `w`. `parse? tag s` is a word with `s` as its `decimal`
if and only if `s` is a canonical numeral of an integer in the range of the tag. -/
theorem parse?_decimal_inverse :
    (∀ (tag : Signedness) (w : Word), parse? tag w.decimal = some (w.retag tag)) ∧
    (∀ w : Word, parse? w.tag w.decimal = some w) ∧
    ∀ (tag : Signedness) (s : String),
      (∃ w, parse? tag s = some w ∧ w.decimal = s) ↔
        ∃ n : Numeral, s = n.text ∧ n.IsCanonical ∧ tag.InRange n.value := by
  refine ⟨parse?_decimal, fun w => parse?_decimal w.tag w, fun tag s => ⟨?_, ?_⟩⟩
  · rintro ⟨w, hread, hwritten⟩
    -- the text is the one written for `w`, and `w` carries the tag it was read under
    have htag : w.tag = tag := by
      rw [← hwritten, parse?_decimal, Option.some.injEq] at hread
      rw [← hread, tag_retag]
    refine ⟨Numeral.ofInt w.value, ?_, Numeral.isCanonical_ofInt _, ?_⟩
    · rw [← hwritten, decimal_eq_text]
    · rw [Numeral.value_ofInt, ← htag]
      exact inRange_value w
  · rintro ⟨n, rfl, hn, hrange⟩
    exact ⟨ofInt tag n.value, parse?_text tag n, decimal_ofInt_value hn hrange⟩

end TaggedWord.Word
