import TaggedWord.Proofs.Wrapping
import TaggedWord.Word.Decimal
import Mathlib.Data.List.TakeWhile
import Mathlib.Tactic.Ring

/-! # Decimal numerals

A numeral is a number of minus signs, each of which negates, with digits behind them. It spells an
integer, and every text has at most one reading as a numeral.

* **`placeValue`** — the number that digits denote.
* **`Numeral`** — minus signs and digits, with `Numeral.text` for what is written and
  `Numeral.value` for the integer meant; by `Numeral.text_injective` a text is written in one way
  only.
* **`Numeral.IsCanonical`** — the numerals without needless minus signs or zeros.
* **`Numeral.ofInt`** — the canonical numeral of an integer, and the only one
  (`Numeral.eq_ofInt_of_isCanonical`). -/

namespace TaggedWord

/-! ## Digits -/

/-- **The number that digits denote**: each digit counts ten to the power of the number of digits
behind it. -/
def placeValue : List Char → Nat
  | [] => 0
  | c :: rest => (c.toNat - '0'.toNat) * 10 ^ rest.length + placeValue rest

/-- `Nat.ofDigitChars 10 ds n`, which takes in digits one by one from the left, moves `n` up by as
many places and adds `placeValue ds`. -/
theorem ofDigitChars_eq_placeValue (ds : List Char) (n : Nat) :
    Nat.ofDigitChars 10 ds n = n * 10 ^ ds.length + placeValue ds := by
  induction ds generalizing n with
  | nil => simp [placeValue]
  | cons c rest ih =>
    rw [Nat.ofDigitChars_cons, ih, placeValue, List.length_cons, pow_succ]
    ring

/-- `Nat.ofDigitChars 10 ds 0 = placeValue ds`. -/
theorem ofDigitChars_zero (ds : List Char) : Nat.ofDigitChars 10 ds 0 = placeValue ds := by
  rw [ofDigitChars_eq_placeValue, zero_mul, zero_add]

/-- `placeValue (ds ++ es)`: the digits in front count for as many places as there are digits behind
them. -/
theorem placeValue_append (ds es : List Char) :
    placeValue (ds ++ es) = placeValue ds * 10 ^ es.length + placeValue es := by
  rw [← ofDigitChars_zero, Nat.ofDigitChars_append, ofDigitChars_zero, ofDigitChars_eq_placeValue]

/-- The digits written for a number denote it. -/
@[simp] theorem placeValue_toDigits (n : Nat) : placeValue (Nat.toDigits 10 n) = n := by
  rw [← ofDigitChars_zero, Nat.ofDigitChars_ten_toDigits]

/-- `placeValue (ds ++ [c])`: one more digit counts the number so far ten times. -/
theorem placeValue_concat (ds : List Char) (c : Char) :
    placeValue (ds ++ [c]) = placeValue ds * 10 + (c.toNat - '0'.toNat) := by
  rw [placeValue_append]
  simp [placeValue]

/-- Zeros denote nothing. -/
@[simp] theorem placeValue_replicate_zero (k : Nat) : placeValue (List.replicate k '0') = 0 := by
  induction k with
  | zero => rfl
  | succ k ih => simp [List.replicate_succ, placeValue, ih]

/-- The codes of the digits follow that of the zero. -/
theorem toNat_bounds_of_isDigit {c : Char} (h : c.isDigit = true) :
    '0'.toNat ≤ c.toNat ∧ c.toNat ≤ '0'.toNat + 9 := by
  simpa [Char.isDigit, UInt32.le_iff_toNat_le] using h

/-- `placeValue ds < 10 ^ ds.length`: digits denote a number with no more places than digits. -/
theorem placeValue_lt {ds : List Char} (hds : ∀ c ∈ ds, c.isDigit = true) :
    placeValue ds < 10 ^ ds.length := by
  induction ds with
  | nil => decide
  | cons c rest ih =>
    have hc := toNat_bounds_of_isDigit (hds c List.mem_cons_self)
    have hrest := ih fun d hd => hds d (List.mem_cons_of_mem c hd)
    have hfirst : (c.toNat - '0'.toNat) * 10 ^ rest.length ≤ 9 * 10 ^ rest.length :=
      Nat.mul_le_mul_right _ (by omega)
    rw [placeValue, List.length_cons, pow_succ]
    omega

/-- A digit is the `Nat.digitChar` of its own value. -/
theorem digitChar_of_isDigit {c : Char} (h : c.isDigit = true) :
    Nat.digitChar (c.toNat - '0'.toNat) = c ∧ c.toNat - '0'.toNat < 10 := by
  have hc := toNat_bounds_of_isDigit h
  have hlt : c.toNat - '0'.toNat < 10 := by omega
  refine ⟨Char.toNat_inj.mp ?_, hlt⟩
  rw [Nat.toNat_digitChar_of_lt_ten hlt]
  simp only [Char.reduceToNat] at hc ⊢
  omega

/-- The first of `Nat.toDigits 10 n` is not a zero for a positive number. -/
theorem head?_toDigits_ne_zero {n : Nat} (h : 0 < n) : (Nat.toDigits 10 n).head? ≠ some '0' := by
  induction n using Nat.strongRecOn with
  | ind n ih =>
    rw [Nat.toDigits_eq_if (by decide)]
    split
    · -- a single digit, which as a character is `48 + n`
      rename_i hn
      intro h0
      have hval := Nat.toNat_digitChar_of_lt_ten hn
      rw [List.head?_cons, Option.some.injEq] at h0
      rw [h0] at hval
      simp only [Char.reduceToNat] at hval
      omega
    · -- the first digit is that of the tenth part, which is positive too
      rw [List.head?_append, Option.or_of_isSome (by simp)]
      exact ih (n / 10) (by omega) (by omega)

/-- `Nat.toDigits 10 n ++ ds` are the digits of `n` with `ds` taken in, for a positive number. -/
theorem toDigits_append_of_isDigit {n : Nat} (hn : 0 < n) {ds : List Char}
    (hds : ∀ c ∈ ds, c.isDigit = true) :
    Nat.toDigits 10 n ++ ds = Nat.toDigits 10 (Nat.ofDigitChars 10 ds n) := by
  induction ds generalizing n with
  | nil => simp
  | cons c rest ih =>
    obtain ⟨hchar, hlt⟩ := digitChar_of_isDigit (hds c List.mem_cons_self)
    -- the number stays positive, so the induction is on it as well
    have hone : Nat.toDigits 10 n ++ [c] = Nat.toDigits 10 (10 * n + (c.toNat - '0'.toNat)) := by
      rw [← Nat.toDigits_append_toDigits (by decide) hn hlt, Nat.toDigits_of_lt_base hlt, hchar]
    calc
      Nat.toDigits 10 n ++ c :: rest = (Nat.toDigits 10 n ++ [c]) ++ rest := by simp
      _ = Nat.toDigits 10 (10 * n + (c.toNat - '0'.toNat)) ++ rest := by rw [hone]
      _ = Nat.toDigits 10 (Nat.ofDigitChars 10 (c :: rest) n) := by
        rw [Nat.ofDigitChars_cons]
        exact ih (by omega) fun d hd => hds d (List.mem_cons_of_mem c hd)

/-- `Nat.toDigits 10 (placeValue ds) = ds` for digits of which the first is no zero. -/
theorem toDigits_placeValue {ds : List Char} (hne : ds ≠ []) (hds : ∀ c ∈ ds, c.isDigit = true)
    (hhead : ds.head? ≠ some '0') : Nat.toDigits 10 (placeValue ds) = ds := by
  -- start from the first digit, a positive number of one digit, and append the others
  obtain ⟨c, rest, rfl⟩ := List.exists_cons_of_ne_nil hne
  obtain ⟨hchar, hlt⟩ := digitChar_of_isDigit (hds c List.mem_cons_self)
  have hpos : 0 < c.toNat - '0'.toNat := by
    rw [Nat.pos_iff_ne_zero]
    intro h0
    rw [h0] at hchar
    exact hhead (by rw [← hchar]; rfl)
  have h := toDigits_append_of_isDigit hpos fun d hd => hds d (List.mem_cons_of_mem c hd)
  rw [Nat.toDigits_of_lt_base hlt, hchar, ofDigitChars_eq_placeValue] at h
  exact h.symm

/-! ## Numerals -/

/-- **A numeral**: a number of minus signs and at least one digit behind them. -/
@[ext] structure Numeral where
  /-- The number of minus signs. -/
  minuses : Nat
  /-- The digits, from the left. -/
  digits : List Char
  digits_ne_nil : digits ≠ []
  isDigit_of_mem : ∀ c ∈ digits, c.isDigit = true

namespace Numeral

/-- The characters of a numeral. -/
def chars (n : Numeral) : List Char := List.replicate n.minuses '-' ++ n.digits

/-- **The text of a numeral.** -/
def text (n : Numeral) : String := String.ofList n.chars

@[simp] theorem toList_text (n : Numeral) : n.text.toList = n.chars := String.toList_ofList

/-- `n.text` has no other characters than minus signs and digits. -/
theorem minus_or_isDigit_of_mem {n : Numeral} {c : Char} (h : c ∈ n.text.toList) :
    c = '-' ∨ c.isDigit = true := by
  rw [toList_text, chars] at h
  rcases List.mem_append.mp h with h | h
  · exact .inl (List.eq_of_mem_replicate h)
  · exact .inr (n.isDigit_of_mem c h)

/-- **The integer that a numeral spells**: each minus sign negates the number of the digits. -/
def value (n : Numeral) : Int := (-1) ^ n.minuses * placeValue n.digits

/-- None of `n.digits` is a minus sign. -/
theorem not_minus_of_mem_digits (n : Numeral) {c : Char} (h : c ∈ n.digits) : c ≠ '-' := by
  rintro rfl
  exact absurd (n.isDigit_of_mem _ h) (by decide)

/-- The minus signs that a numeral starts with are its own. -/
@[simp] theorem takeWhile_chars (n : Numeral) :
    n.chars.takeWhile (· == '-') = List.replicate n.minuses '-' := by
  obtain ⟨c, rest, hc⟩ := List.exists_cons_of_ne_nil n.digits_ne_nil
  have hminus : c ≠ '-' := n.not_minus_of_mem_digits (hc ▸ List.mem_cons_self)
  rw [chars, List.takeWhile_append_of_pos (by simp), hc,
    List.takeWhile_cons_of_neg (by simpa using hminus), List.append_nil]

/-- What stands behind the minus signs are the digits. -/
@[simp] theorem dropWhile_chars (n : Numeral) : n.chars.dropWhile (· == '-') = n.digits := by
  obtain ⟨c, rest, hc⟩ := List.exists_cons_of_ne_nil n.digits_ne_nil
  have hminus : c ≠ '-' := n.not_minus_of_mem_digits (hc ▸ List.mem_cons_self)
  rw [chars, List.dropWhile_append_of_pos (by simp), hc,
    List.dropWhile_cons_of_neg (by simpa using hminus)]

/-- **A text is written in one way only**: `text` is injective. -/
theorem text_injective : Function.Injective text := by
  intro n m h
  have hchars : n.chars = m.chars := by rw [← toList_text, h, toList_text]
  -- a text falls apart at its first character that is no minus sign
  have hminus := congrArg (List.takeWhile (· == '-')) hchars
  have hdigits := congrArg (List.dropWhile (· == '-')) hchars
  rw [takeWhile_chars, takeWhile_chars] at hminus
  rw [dropWhile_chars, dropWhile_chars] at hdigits
  exact Numeral.ext (by simpa using congrArg List.length hminus) hdigits

/-- Characters are `n.chars` of a numeral if those behind the leading minus signs are digits, and at
least one. -/
theorem exists_chars_eq {s : List Char} (hne : s.dropWhile (· == '-') ≠ [])
    (hds : ∀ c ∈ s.dropWhile (· == '-'), c.isDigit = true) : ∃ n : Numeral, s = n.chars := by
  have hminus : s.takeWhile (· == '-') = List.replicate (s.takeWhile (· == '-')).length '-' :=
    List.eq_replicate_iff.mpr ⟨rfl, fun c hc => by simpa using List.mem_takeWhile_imp hc⟩
  refine ⟨⟨(s.takeWhile (· == '-')).length, s.dropWhile (· == '-'), hne, hds⟩, ?_⟩
  rw [chars, ← hminus, List.takeWhile_append_dropWhile]

/-! ## Canonical numerals -/

/-- **The canonical numerals**: at most one minus sign, none before a lone zero, and no zero before
another digit. -/
structure IsCanonical (n : Numeral) : Prop where
  minuses_le_one : n.minuses ≤ 1
  minuses_of_zero : n.digits = ['0'] → n.minuses = 0
  zero_of_head : n.digits.head? = some '0' → n.digits = ['0']

/-- **The canonical numeral of an integer.** -/
def ofInt (z : Int) : Numeral where
  minuses := if z < 0 then 1 else 0
  digits := Nat.toDigits 10 z.natAbs
  digits_ne_nil := Nat.toDigits_ne_nil
  isDigit_of_mem _ h := Nat.isDigit_of_mem_toDigits (by decide) (by decide) h

/-- `ofInt z` has one minus sign for a negative integer, and none otherwise. -/
theorem minuses_ofInt (z : Int) : (ofInt z).minuses = if z < 0 then 1 else 0 := rfl

/-- `ofInt z` has the digits of the absolute value. -/
theorem digits_ofInt (z : Int) : (ofInt z).digits = Nat.toDigits 10 z.natAbs := rfl

/-- The canonical numeral of an integer spells it. -/
@[simp] theorem value_ofInt (z : Int) : (ofInt z).value = z := by
  rw [value, minuses_ofInt, digits_ofInt, placeValue_toDigits]
  split
  · rw [pow_one]
    omega
  · rw [pow_zero]
    omega

/-- `ofInt z` is canonical. -/
theorem isCanonical_ofInt (z : Int) : (ofInt z).IsCanonical := by
  have hzero : (ofInt z).digits.head? = some '0' → z = 0 := by
    intro h
    by_contra hz
    exact head?_toDigits_ne_zero (Int.natAbs_pos.mpr hz) h
  refine ⟨?_, ?_, ?_⟩
  · rw [minuses_ofInt]
    split <;> omega
  · intro h
    obtain rfl := hzero (by rw [h]; rfl)
    rfl
  · intro h
    obtain rfl := hzero h
    rfl

/-- The digits of a canonical numeral are those written for the number they denote. -/
theorem IsCanonical.toDigits_placeValue {n : Numeral} (h : n.IsCanonical) :
    Nat.toDigits 10 (placeValue n.digits) = n.digits := by
  by_cases hhead : n.digits.head? = some '0'
  · rw [h.zero_of_head hhead]
    rfl
  · exact TaggedWord.toDigits_placeValue n.digits_ne_nil n.isDigit_of_mem hhead

/-- **A canonical numeral is the one of the integer that it spells**: `n = ofInt n.value`. -/
theorem eq_ofInt_of_isCanonical {n : Numeral} (h : n.IsCanonical) : n = ofInt n.value := by
  have hdigits := h.toDigits_placeValue
  obtain hm | hm : n.minuses = 0 ∨ n.minuses = 1 := by
    have := h.minuses_le_one
    omega
  · have hval : n.value = placeValue n.digits := by rw [value, hm, pow_zero, one_mul]
    ext1
    · rw [hval, hm, minuses_ofInt, if_neg (by omega)]
    · rw [hval, digits_ofInt, Int.natAbs_natCast, hdigits]
  · have hval : n.value = -placeValue n.digits := by rw [value, hm, pow_one, neg_one_mul]
    have hpos : 0 < placeValue n.digits := by
      -- a lone zero would have no minus sign
      rw [Nat.pos_iff_ne_zero]
      intro h0
      rw [h0] at hdigits
      have := h.minuses_of_zero hdigits.symm
      omega
    ext1
    · rw [hval, hm, minuses_ofInt, if_pos (by omega)]
    · rw [hval, digits_ofInt, Int.natAbs_neg, Int.natAbs_natCast, hdigits]

end Numeral

end TaggedWord
