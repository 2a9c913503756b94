import TaggedWord.Proofs.Numeral

/-! # Reading numerals into words

The reader takes the texts of numerals and no others, and gives the word of the integer that the
numeral spells. Digits are taken in by pieces; before and after each piece the word read so far is
the signed one of the number that the digits so far denote, whichever rule of the product settled a
step (`absorb_placeValue`, `foldl_absorb`).

* **`ofDigits_eq_ofInt`** — the word of a list of digits.
* **`parse?_text`** — what is read from the text of a numeral.
* **`parse?_eq_some_iff`** — all that can be read at all. -/

namespace TaggedWord.Word

/-! ## Digits by pieces -/

/-- Nothing is lost by cutting a list into pieces. -/
@[simp] theorem flatten_chunksOf {α : Type} (size : Nat) (s : List α) :
    (chunksOf size s).flatten = s := by
  fun_induction chunksOf size s with
  | case1 => rfl
  | case2 a rest ih => rw [List.flatten_cons, ih, List.cons_append, List.take_append_drop]

/-- `powerOfTen n` is the signed word of `10 ^ n`. -/
theorem powerOfTen_eq_ofInt (n : Nat) : powerOfTen n = ofInt .signed (10 ^ n : Nat) := by
  rw [powerOfTen, ofInt, BitVec.ofInt_natCast, Nat.pow_eq]

/-- **One step of reading**: `absorb` makes the word of `placeValue ds` that of
`placeValue (ds ++ piece)`. -/
theorem absorb_placeValue (ds piece : List Char) :
    absorb (ofInt .signed (placeValue ds)) piece = ofInt .signed (placeValue (ds ++ piece)) := by
  have hpiece : (⟨BitVec.ofNat 64 (Nat.ofDigitChars 10 piece 0), .signed⟩ : Word)
      = ofInt .signed (placeValue piece) := by
    rw [ofDigitChars_zero, ofInt, BitVec.ofInt_natCast]
  rw [absorb, hpiece, powerOfTen_eq_ofInt, mul_ofInt_signed, add_ofInt, placeValue_append]
  norm_cast

/-- **The loop of reading**: `absorb` over some pieces makes the word of `placeValue ds` that of the
digits with all of the pieces behind them. -/
theorem foldl_absorb (ds : List Char) (pieces : List (List Char)) :
    pieces.foldl absorb (ofInt .signed (placeValue ds))
      = ofInt .signed (placeValue (ds ++ pieces.flatten)) := by
  induction pieces generalizing ds with
  | nil => rw [List.foldl_nil, List.flatten_nil, List.append_nil]
  | cons piece rest ih =>
    rw [List.foldl_cons, absorb_placeValue, ih, List.flatten_cons, List.append_assoc]

/-- `ofDigits ds` is the signed word of `placeValue ds`. -/
theorem ofDigits_eq_ofInt (ds : List Char) : ofDigits ds = ofInt .signed (placeValue ds) := by
  have h := foldl_absorb [] (chunksOf chunkDigits ds)
  rwa [flatten_chunksOf] at h

/-! ## Minus signs -/

/-- Negating `ofInt tag z` if the number `k` of minus signs is odd multiplies `z` by `(-1) ^ k`. -/
theorem neg_of_odd (tag : Signedness) (k : Nat) (z : Int) :
    (if k % 2 = 1 then (ofInt tag z).neg else ofInt tag z) = ofInt tag ((-1) ^ k * z) := by
  split
  · rename_i hk
    rw [neg_ofInt, (Nat.odd_iff.mpr hk).neg_one_pow, neg_one_mul]
  · rename_i hk
    rw [(Nat.even_iff.mpr (by omega)).neg_one_pow, one_mul]

/-! ## Texts -/

/-- **What is read from a numeral** is the word of the integer that it spells. -/
@[simp] theorem parse?_text (tag : Signedness) (n : Numeral) :
    parse? tag n.text = some (ofInt tag n.value) := by
  have hdigits : (n.digits.isEmpty || !n.digits.all Char.isDigit) = false := by
    have hall : n.digits.all Char.isDigit = true := List.all_eq_true.mpr n.isDigit_of_mem
    rw [hall, List.isEmpty_eq_false_iff.mpr n.digits_ne_nil]
    rfl
  simp only [parse?, ofChars?, Numeral.toList_text, Numeral.dropWhile_chars,
    Numeral.takeWhile_chars, hdigits, ofDigits_eq_ofInt, retag_ofInt, List.length_replicate]
  rw [if_neg Bool.false_ne_true, neg_of_odd, Numeral.value]

/-- Two minus signs, three pieces of digits of which the last is short, and a number beyond 64
bits. -/
example : parse? .unsigned "--18446744073709551617" = some ⟨1, .unsigned⟩ := by decide +kernel

/-- `parse?` reads numerals only. -/
theorem exists_text_of_parse? {tag : Signedness} {s : String} {w : Word}
    (h : parse? tag s = some w) : ∃ n : Numeral, s = n.text := by
  rw [parse?, ofChars?] at h
  split at h
  · exact absurd h (by simp)
  · rename_i hdigits
    rw [Bool.or_eq_true, not_or, List.isEmpty_iff, Bool.not_eq_true', Bool.not_eq_false,
      List.all_eq_true] at hdigits
    obtain ⟨n, hn⟩ := Numeral.exists_chars_eq hdigits.1 hdigits.2
    exact ⟨n, by rw [Numeral.text, ← hn, String.ofList_toList]⟩

/-- `parse? tag s = none` iff `s` is no numeral. -/
theorem parse?_eq_none_iff (tag : Signedness) (s : String) :
    parse? tag s = none ↔ ∀ n : Numeral, s ≠ n.text := by
  constructor
  · rintro h n rfl
    rw [parse?_text] at h
    cases h
  · intro h
    cases hread : parse? tag s with
    | none => rfl
    | some w =>
      obtain ⟨n, hn⟩ := exists_text_of_parse? hread
      exact absurd hn (h n)

/-- **What can be read**: `parse? tag s` gives a word if and only if `s` is a numeral, that is,
minus signs and then at least one digit, and then the word has that tag and the pattern of the
integer spelled, modulo `2^64`. -/
theorem parse?_eq_some_iff (tag : Signedness) (s : String) (w : Word) :
    parse? tag s = some w ↔
      ∃ n : Numeral, s = n.text ∧ w.tag = tag ∧ (w.asUnsigned : Int) = n.value % 2 ^ 64 := by
  constructor
  · intro h
    obtain ⟨n, rfl⟩ := exists_text_of_parse? h
    rw [parse?_text, Option.some.injEq] at h
    exact ⟨n, rfl, by rw [← h, tag_ofInt], by rw [← h, asUnsigned_ofInt]⟩
  · rintro ⟨n, rfl, rfl, hbits⟩
    rw [parse?_text, Option.some.injEq]
    ext1
    · apply BitVec.eq_of_toNat_eq
      have h := asUnsigned_ofInt w.tag n.value
      rw [← hbits] at h
      exact Int.ofNat.inj h
    · rfl

end TaggedWord.Word
