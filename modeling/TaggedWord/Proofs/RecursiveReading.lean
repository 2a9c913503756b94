import TaggedWord.Proofs.Reading

/-! # Reading by recursion on the text

The plain way to read a text takes one character at a time: a minus sign in front negates what the
rest of the text spells, and digits are pushed onto a word one by one. The reader counts the minus
signs instead and takes digits in by pieces. Both give the same on every text
(`parse?_eq_parseRecursively?`), because negation undoes itself and because digits denote one number
however they are cut.

* **`IsRefused`** — the texts that the plain reader refuses at sight.
* **`pushDigit`** — one digit pushed onto a word.
* **`parseRecursively?`** — the plain reader. -/

namespace TaggedWord.Word

/-! ## The plain reader -/

/-- The names of the numbers that are not finite. -/
def nonFiniteNames : List String := ["NaN", "Infinity", "+Infinity", "-Infinity"]

/-- **The texts that are refused at sight**: the empty one, the names of the numbers that are not
finite, and those in which the first minus sign does not stand in front. -/
def IsRefused (s : List Char) : Prop :=
  s = [] ∨ String.ofList s ∈ nonFiniteNames ∨ '-' ∈ s ∧ s.idxOf '-' ≠ 0

instance : DecidablePred IsRefused := fun s =>
  inferInstanceAs
    (Decidable (s = [] ∨ String.ofList s ∈ nonFiniteNames ∨ '-' ∈ s ∧ s.idxOf '-' ≠ 0))

/-- **One digit pushed onto a word**: ten times the word and the digit. -/
def pushDigit (w : Word) (c : Char) : Word :=
  (w.mul ⟨10, .signed⟩).add ⟨BitVec.ofNat 64 (c.toNat - '0'.toNat), .signed⟩

/-- The word that characters spell, found by recursion on them. -/
def ofCharsRecursively? (tag : Signedness) (s : List Char) : Option Word :=
  if IsRefused s then none
  else match s with
    | '-' :: rest => (ofCharsRecursively? tag rest).map neg
    | ds => if ds.all Char.isDigit then some ((ds.foldl pushDigit zero).retag tag) else none

/-- **The plain reader.** -/
def parseRecursively? (tag : Signedness) (s : String) : Option Word :=
  ofCharsRecursively? tag s.toList

/-! ## Digits -/

/-- `pushDigit w c = absorb w [c]`: a digit is pushed as a piece of one digit is taken in. -/
theorem pushDigit_eq_absorb (w : Word) (c : Char) : pushDigit w c = absorb w [c] := by
  have hpower : powerOfTen [c].length = ⟨10, .signed⟩ := rfl
  rw [pushDigit, absorb, hpower, Nat.ofDigitChars_cons, Nat.ofDigitChars_nil, Nat.mul_zero,
    Nat.zero_add]

/-- **Digits are read alike one by one and by pieces**: `pushDigit` over `ds` is `ofDigits ds`. -/
theorem foldl_pushDigit (ds : List Char) : ds.foldl pushDigit zero = ofDigits ds := by
  have hone : ds.foldl pushDigit zero = (ds.map fun c => [c]).foldl absorb zero := by
    rw [List.foldl_map]
    simp only [← pushDigit_eq_absorb]
  have hpieces : (ds.map fun c => [c]).flatten = ds := by
    rw [← List.flatMap_def, List.flatMap_singleton']
  have hloop := foldl_absorb [] (ds.map fun c => [c])
  rw [hpieces, List.nil_append] at hloop
  rw [hone, ofDigits_eq_ofInt]
  exact hloop

/-! ## Minus signs -/

/-- **`neg` undoes itself**, on `minValue` too. -/
theorem neg_involutive : Function.Involutive neg := by
  intro w
  ext1
  · rw [bits_neg, bits_neg, BitVec.neg_neg]
  · rw [tag_neg, tag_neg]

/-- One more minus sign applies `neg` once more. -/
theorem neg_of_odd_succ (k : Nat) (w : Word) :
    (if (k + 1) % 2 = 1 then w.neg else w) = (if k % 2 = 1 then w.neg else w).neg := by
  rcases Nat.mod_two_eq_zero_or_one k with hk | hk
  · rw [if_pos (by omega), if_neg (by omega)]
  · rw [if_neg (by omega), if_pos hk, neg_involutive]

/-- `ofChars? tag ('-' :: rest)` is the negation of what `rest` spells. -/
theorem ofChars?_minus (tag : Signedness) (rest : List Char) :
    ofChars? tag ('-' :: rest) = (ofChars? tag rest).map neg := by
  have hdrop : ('-' :: rest).dropWhile (· == '-') = rest.dropWhile (· == '-') :=
    List.dropWhile_cons_of_pos rfl
  have htake : (('-' :: rest).takeWhile (· == '-')).length
      = (rest.takeWhile (· == '-')).length + 1 := by
    rw [List.takeWhile_cons_of_pos rfl, List.length_cons]
  rw [ofChars?, ofChars?, hdrop, htake]
  split
  · rfl
  · exact congrArg some (neg_of_odd_succ _ _)

/-- `ofChars? tag s` reads only digits if there is no minus sign in front, and there has to be
one. -/
theorem ofChars?_of_no_minus (tag : Signedness) {s : List Char} (hne : s ≠ [])
    (hminus : ∀ rest, s ≠ '-' :: rest) :
    ofChars? tag s = if s.all Char.isDigit then some ((ofDigits s).retag tag) else none := by
  obtain ⟨c, rest, rfl⟩ := List.exists_cons_of_ne_nil hne
  have hc : ¬(c == '-') = true := by
    intro heq
    exact hminus rest (by rw [eq_of_beq heq])
  have hdrop : (c :: rest).dropWhile (· == '-') = c :: rest := List.dropWhile_cons_of_neg hc
  have htake : (c :: rest).takeWhile (· == '-') = [] := List.takeWhile_cons_of_neg hc
  rw [ofChars?, hdrop, htake]
  cases (c :: rest).all Char.isDigit <;> rfl

/-! ## Refused texts -/

/-- `ofChars?` reads none of the `nonFiniteNames`, whether it starts with a minus sign or not. -/
theorem ofChars?_of_mem_nonFiniteNames (tag : Signedness) {s : String}
    (h : s ∈ nonFiniteNames) : ofChars? tag s.toList = none := by
  simp only [nonFiniteNames, List.mem_cons, List.not_mem_nil, or_false] at h
  rcases h with rfl | rfl | rfl | rfl <;> rfl

/-- **What is refused at sight cannot be read**: `ofChars? tag s = none` for `IsRefused s`. -/
theorem ofChars?_of_isRefused (tag : Signedness) {s : List Char} (h : IsRefused s) :
    ofChars? tag s = none := by
  rcases h with rfl | hname | ⟨hmem, hindex⟩
  · rfl
  · have hnone := ofChars?_of_mem_nonFiniteNames tag hname
    rwa [String.toList_ofList] at hnone
  · -- a minus sign behind another character is among the digits
    have hne : s ≠ [] := List.ne_nil_of_mem hmem
    have hminus : ∀ rest, s ≠ '-' :: rest := by
      rintro rest rfl
      exact hindex List.idxOf_cons_self
    have hdigits : ¬s.all Char.isDigit = true := fun hall =>
      absurd (List.all_eq_true.mp hall '-' hmem) (by decide)
    rw [ofChars?_of_no_minus tag hne hminus, if_neg hdigits]

/-! ## Agreement -/

/-- **Both readers agree on every text**: `parse?` and `parseRecursively?` refuse the same texts,
and read the others as words with the same pattern and tag. -/
theorem parse?_eq_parseRecursively? (tag : Signedness) (s : String) :
    parse? tag s = parseRecursively? tag s := by
  rw [parse?, parseRecursively?]
  -- the induction is on the minus signs in front, which the plain reader takes away one by one
  generalize s.toList = cs
  fun_induction ofCharsRecursively? tag cs with
  | case1 cs hrefused => exact ofChars?_of_isRefused tag hrefused
  | case2 rest hrefused ih => rw [ofChars?_minus, ih]
  | case3 ds hminus hdigits hrefused =>
    have hne : ds ≠ [] := fun hnil => hrefused (.inl hnil)
    rw [ofChars?_of_no_minus tag hne hminus, if_pos hdigits, foldl_pushDigit]
  | case4 ds hminus hdigits hrefused =>
    have hne : ds ≠ [] := fun hnil => hrefused (.inl hnil)
    rw [ofChars?_of_no_minus tag hne hminus, if_neg hdigits]

end TaggedWord.Word
