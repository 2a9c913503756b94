import TaggedWord.Datum

/-! # Numbers of a JSON text

A number has digits before the point, and may have a minus, digits after the point and an exponent.

* **`digits?`** — a run of digits, and what is left of the text.
* **`integer?`** — the datum of an integer: exact if it fits 64 bits.
* **`number?`** — the datum of a number, and what is left of the text: an integer if it is written
  as one, the nearest floating-point number otherwise. -/

namespace TaggedWord.JsonText

/-! ## Parts of a number -/

/-- **One or more digits.** -/
def digits? (s : List Char) : Option (List Char × List Char) :=
  let ds := s.takeWhile Char.isDigit
  if ds.isEmpty then none else some (ds, s.dropWhile Char.isDigit)

/-- `digits?` leaves less than it was given: a run has a digit. -/
theorem length_lt_of_digits? {s ds rest : List Char} (h : digits? s = some (ds, rest)) :
    rest.length < s.length := by
  simp only [digits?] at h
  split at h
  · cases h
  · rename_i hne
    cases h
    have hpos : 0 < (s.takeWhile Char.isDigit).length :=
      List.length_pos_iff.mpr fun e => hne (by rw [e]; rfl)
    have hsum := congrArg List.length (List.takeWhile_append_dropWhile (p := Char.isDigit) (l := s))
    rw [List.length_append] at hsum
    omega

/-- The digits before the point. Only a zero alone may start with a zero. -/
def whole? (s : List Char) : Option (List Char × List Char) := do
  let (ds, rest) ← digits? s
  if 1 < ds.length && ds.head? == some '0' then none else some (ds, rest)

/-- `whole?` leaves less than it was given, as `digits?` does. -/
theorem length_lt_of_whole? {s ds rest : List Char} (h : whole? s = some (ds, rest)) :
    rest.length < s.length := by
  obtain ⟨⟨ds', rest'⟩, hd, h⟩ := Option.bind_eq_some_iff.mp h
  dsimp only at h
  split at h
  · cases h
  · cases h
    exact length_lt_of_digits? hd

/-- The digits after the point, if there is a point. -/
def fraction? : List Char → Option (Option (List Char) × List Char)
  | '.' :: s => (digits? s).map fun (ds, rest) => (some ds, rest)
  | s => some (none, s)

/-- `fraction?` leaves no more than it was given. -/
theorem length_le_of_fraction? {s rest : List Char} {f : Option (List Char)}
    (h : fraction? s = some (f, rest)) : rest.length ≤ s.length := by
  unfold fraction? at h
  split at h
  · obtain ⟨⟨ds, left⟩, hd, e⟩ := Option.map_eq_some_iff.mp h
    cases e
    exact Nat.le_of_lt (Nat.lt_succ_of_lt (length_lt_of_digits? hd))
  · cases h
    exact Nat.le_refl _

/-- The digits of an exponent with its sign, as a number. -/
def exponentDigits? : List Char → Option (Int × List Char)
  | '+' :: s => (digits? s).map fun (ds, rest) => ((Nat.ofDigitChars 10 ds 0 : Int), rest)
  | '-' :: s => (digits? s).map fun (ds, rest) => (-(Nat.ofDigitChars 10 ds 0 : Int), rest)
  | s => (digits? s).map fun (ds, rest) => ((Nat.ofDigitChars 10 ds 0 : Int), rest)

/-- `exponentDigits?` leaves less than it was given, with each of its signs. -/
theorem length_lt_of_exponentDigits? {s rest : List Char} {e : Int}
    (h : exponentDigits? s = some (e, rest)) : rest.length < s.length := by
  unfold exponentDigits? at h
  split at h <;> obtain ⟨⟨ds, left⟩, hd, e⟩ := Option.map_eq_some_iff.mp h <;> cases e
  · exact Nat.lt_succ_of_lt (length_lt_of_digits? hd)
  · exact Nat.lt_succ_of_lt (length_lt_of_digits? hd)
  · exact length_lt_of_digits? hd

/-- The exponent, if there is one. -/
def exponent? : List Char → Option (Option Int × List Char)
  | [] => some (none, [])
  | c :: s =>
    if c = 'e' || c = 'E' then (exponentDigits? s).map fun (e, rest) => (some e, rest)
    else some (none, c :: s)

/-- `exponent?` leaves no more than it was given. -/
theorem length_le_of_exponent? {s rest : List Char} {e : Option Int}
    (h : exponent? s = some (e, rest)) : rest.length ≤ s.length := by
  unfold exponent? at h
  split at h
  · cases h
    exact Nat.le_refl _
  · split at h
    · obtain ⟨⟨n, left⟩, hd, e⟩ := Option.map_eq_some_iff.mp h
      cases e
      exact Nat.le_of_lt (Nat.lt_succ_of_lt (length_lt_of_exponentDigits? hd))
    · cases h
      exact Nat.le_refl _

/-! ## The datum of a number -/

/-- **The floating-point number nearest to a decimal**, unless it is beyond the finite numbers. How
a number with a point or an exponent is rounded is left to each library: another one may give a
neighbour of the nearest number, and no law of `JsonLibrary` speaks of it. -/
def finite? (negative : Bool) (d : Decimal) : Option Datum :=
  let x := Binary64.ofDecimal negative d
  if x.isInfinite then none else some (.float x)

/-- **The datum of an integer**: a machine integer of 64 bits if it fits one, a floating-point
number otherwise. The negative zero is no machine integer. -/
def integer? (negative : Bool) (n : Nat) : Option Datum :=
  if negative then
    if 0 < n && n ≤ 0x8000000000000000 then some (.signed .w64 (BitVec.ofInt 64 (-n)))
    else finite? true ⟨n, 0⟩
  else if n < 0x10000000000000000 then some (.unsigned .w64 (BitVec.ofNat 64 n))
  else finite? false ⟨n, 0⟩

/-- The datum of the parts of a number. -/
def ofParts? (negative : Bool) (whole : List Char) (fraction : Option (List Char))
    (exponent : Option Int) : Option Datum :=
  if fraction.isNone && exponent.isNone then integer? negative (Nat.ofDigitChars 10 whole 0)
  else
    let places := fraction.getD []
    finite? negative
      ⟨Nat.ofDigitChars 10 (whole ++ places) 0, exponent.getD 0 - places.length⟩

/-- A number without its sign. -/
def magnitude? (negative : Bool) (s : List Char) : Option (Datum × List Char) := do
  let (whole, afterWhole) ← whole? s
  let (fraction, afterFraction) ← fraction? afterWhole
  let (exponent, rest) ← exponent? afterFraction
  let datum ← ofParts? negative whole fraction exponent
  some (datum, rest)

/-- `magnitude?` leaves less than it was given, on account of `whole?`. -/
theorem length_lt_of_magnitude? {negative : Bool} {s rest : List Char} {d : Datum}
    (h : magnitude? negative s = some (d, rest)) : rest.length < s.length := by
  obtain ⟨⟨whole, s1⟩, h1, h⟩ := Option.bind_eq_some_iff.mp h
  obtain ⟨⟨fraction, s2⟩, h2, h⟩ := Option.bind_eq_some_iff.mp h
  obtain ⟨⟨exponent, s3⟩, h3, h⟩ := Option.bind_eq_some_iff.mp h
  obtain ⟨datum, _, h⟩ := Option.bind_eq_some_iff.mp h
  have l1 := length_lt_of_whole? h1
  have l2 := length_le_of_fraction? h2
  have l3 := length_le_of_exponent? h3
  cases h
  omega

/-- **A number.** -/
def number? : List Char → Option (Datum × List Char)
  | '-' :: s => magnitude? true s
  | s => magnitude? false s

/-- `number?` leaves less than it was given. -/
theorem length_lt_of_number? {s rest : List Char} {d : Datum} (h : number? s = some (d, rest)) :
    rest.length < s.length := by
  unfold number? at h
  split at h
  · exact Nat.lt_succ_of_lt (length_lt_of_magnitude? h)
  · exact length_lt_of_magnitude? h

end TaggedWord.JsonText
