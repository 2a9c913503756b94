/-! # Strings of a JSON text

Between its quotes a string holds characters as they are and escapes: a backslash with a letter, or
with `u` and four hexadecimal digits. A character beyond 16 bits takes two escapes of the second
kind.

* **`escape?`** — the character written after a backslash, and what is left of the text.
* **`string?`** — the characters of a string up to its closing quote, and what is left of the text.

Every reader leaves less than it was given, so reading ends. -/

namespace TaggedWord.JsonText

/-! ## Escapes -/

/-- The value of a hexadecimal digit of either case. -/
def hexDigit? (c : Char) : Option Nat :=
  if c.isDigit then some (c.toNat - '0'.toNat)
  else if 'a' ≤ c && c ≤ 'f' then some (c.toNat - 'a'.toNat + 10)
  else if 'A' ≤ c && c ≤ 'F' then some (c.toNat - 'A'.toNat + 10)
  else none

/-- The number written by four hexadecimal digits. -/
def fourDigits? : List Char → Option (Nat × List Char)
  | a :: b :: c :: d :: rest => do
    let a ← hexDigit? a
    let b ← hexDigit? b
    let c ← hexDigit? c
    let d ← hexDigit? d
    some (((a * 16 + b) * 16 + c) * 16 + d, rest)
  | _ => none

/-- `fourDigits?` leaves less than it was given. -/
theorem length_lt_of_fourDigits? {s rest : List Char} {n : Nat}
    (h : fourDigits? s = some (n, rest)) : rest.length < s.length := by
  unfold fourDigits? at h
  split at h
  · simp only [Option.bind_eq_bind, Option.bind_eq_some_iff, Option.some.injEq,
      Prod.mk.injEq] at h
    obtain ⟨_, _, _, _, _, _, _, _, _, rfl⟩ := h
    simp only [List.length_cons]
    omega
  · cases h

/-- Whether a 16-bit unit is the first half of a character. -/
def isHighHalf (n : Nat) : Bool := 0xD800 ≤ n && n < 0xDC00

/-- Whether a 16-bit unit is the second half of a character. -/
def isLowHalf (n : Nat) : Bool := 0xDC00 ≤ n && n < 0xE000

/-- The second half of a character, in an escape of its own. -/
def lowHalf? : List Char → Option (Nat × List Char)
  | '\\' :: 'u' :: s => do
    let (low, rest) ← fourDigits? s
    if isLowHalf low then some (low, rest) else none
  | _ => none

/-- `lowHalf?` leaves less than it was given. -/
theorem length_lt_of_lowHalf? {s rest : List Char} {n : Nat} (h : lowHalf? s = some (n, rest)) :
    rest.length < s.length := by
  unfold lowHalf? at h
  split at h
  · obtain ⟨⟨low, rest'⟩, h4, h⟩ := Option.bind_eq_some_iff.mp h
    have hlt := length_lt_of_fourDigits? h4
    dsimp only at h
    split at h
    · cases h
      simp only [List.length_cons]
      omega
    · cases h
  · cases h

/-- **The character written after `\u`.** The halves of a character stand in two escapes, one right
after the other; a half alone is no character. -/
def unicode? (s : List Char) : Option (Char × List Char) := do
  let (unit, rest) ← fourDigits? s
  if isLowHalf unit then none
  else if isHighHalf unit then
    let (low, rest') ← lowHalf? rest
    some (Char.ofNat (0x10000 + (unit - 0xD800) * 0x400 + (low - 0xDC00)), rest')
  else some (Char.ofNat unit, rest)

/-- `unicode?` leaves less than it was given, with one escape or with two. -/
theorem length_lt_of_unicode? {s rest : List Char} {c : Char}
    (h : unicode? s = some (c, rest)) : rest.length < s.length := by
  obtain ⟨⟨unit, rest'⟩, h4, h⟩ := Option.bind_eq_some_iff.mp h
  have hlt := length_lt_of_fourDigits? h4
  dsimp only at h
  split at h
  · cases h
  · split at h
    · obtain ⟨⟨low, rest''⟩, hlow, h⟩ := Option.bind_eq_some_iff.mp h
      have hlt' := length_lt_of_lowHalf? hlow
      rw [← (Prod.mk.inj (Option.some.inj h)).2]
      exact Nat.lt_trans hlt' hlt
    · rw [← (Prod.mk.inj (Option.some.inj h)).2]
      exact hlt

/-- The character that a letter after a backslash stands for. -/
def ofLetter? : Char → Option Char
  | '"' => some '"'
  | '\\' => some '\\'
  | '/' => some '/'
  | 'b' => some '\x08'
  | 'f' => some '\x0c'
  | 'n' => some '\n'
  | 'r' => some '\r'
  | 't' => some '\t'
  | _ => none

/-- **The character written after a backslash.** -/
def escape? : List Char → Option (Char × List Char)
  | [] => none
  | c :: rest => if c = 'u' then unicode? rest else (ofLetter? c).map (·, rest)

/-- `escape?` leaves less than it was given. This is why `string?` ends. -/
theorem length_lt_of_escape? {s rest : List Char} {c : Char} (h : escape? s = some (c, rest)) :
    rest.length < s.length := by
  cases s with
  | nil => cases h
  | cons d t =>
    simp only [escape?] at h
    split at h
    · exact Nat.lt_succ_of_lt (length_lt_of_unicode? h)
    · obtain ⟨_, _, h⟩ := Option.map_eq_some_iff.mp h
      cases h
      exact Nat.lt_succ_self _

/-! ## Strings -/

/-- **The characters of a string** after its opening quote, up to the closing one. Control
characters must be escaped. -/
def string? : List Char → Option (List Char × List Char)
  | [] => none
  | c :: rest =>
    if c = '"' then some ([], rest)
    else if c = '\\' then
      match h : escape? rest with
      | none => none
      | some (d, rest') =>
        have := length_lt_of_escape? h
        (string? rest').map fun (ds, left) => (d :: ds, left)
    else if c.toNat < 0x20 then none
    else (string? rest).map fun (ds, left) => (c :: ds, left)
termination_by s => s.length
decreasing_by all_goals (simp only [List.length_cons]; omega)

/-- `string?` leaves less than it was given, at least by the closing quote. -/
theorem length_lt_of_string? {s cs rest : List Char} (h : string? s = some (cs, rest)) :
    rest.length < s.length := by
  fun_induction string? s generalizing cs rest with
  | case1 => cases h
  | case2 => cases h; exact Nat.lt_succ_self _
  | case3 => cases h
  | case4 t _ d t' he hlt ih =>
    obtain ⟨⟨ds, left⟩, h', e⟩ := Option.map_eq_some_iff.mp h
    cases e
    have h1 := ih h'
    rw [List.length_cons]
    omega
  | case5 => cases h
  | case6 c t _ _ _ ih =>
    obtain ⟨⟨ds, left⟩, h', e⟩ := Option.map_eq_some_iff.mp h
    cases e
    exact Nat.lt_succ_of_lt (ih h')

end TaggedWord.JsonText
