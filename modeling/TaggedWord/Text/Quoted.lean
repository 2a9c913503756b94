import TaggedWord.Text.Unprintable

/-! # Quoted text

A text in double quotes in which every character is visible: a quote, a backslash and the common
control characters are written by a backslash and a letter, other characters of a given set by their
code point in braces, and the rest as they are.

* **`Quoted.encode hidden`** — the written form of a text, where `hidden` tells which characters are
  written by code point.
* **`Quoted.decode`** — reads a written form back.
* **`quoteHiding hidden`** — a text in quotes; `quote` hides the unprintable characters.
* **`IsFrame`** — what puts words around a text without a quote among them. -/

namespace TaggedWord.Text

namespace Quoted

/-! ## Writing -/

/-- **The characters with a letter of their own**, which follows a backslash. -/
def letter? : Char → Option Char
  | '\x00' => some '0'
  | '\t' => some 't'
  | '\r' => some 'r'
  | '\n' => some 'n'
  | '"' => some '"'
  | '\\' => some '\\'
  | _ => none

/-- A code point in lower-case hexadecimal digits between braces, without leading zeros. -/
def codePoint (c : Char) : List Char := '{' :: (Nat.toDigits 16 c.toNat ++ ['}'])

/-- **The written form of one character.** -/
def encodeChar (hidden : Char → Bool) (c : Char) : List Char :=
  match letter? c with
  | some l => ['\\', l]
  | none => if hidden c then '\\' :: 'u' :: codePoint c else [c]

/-- **The written form of a text**, without the quotes around it. -/
def encode (hidden : Char → Bool) (s : List Char) : List Char := s.flatMap (encodeChar hidden)

/-! ## Reading -/

/-- The character that a letter after a backslash stands for. -/
def ofLetter? : Char → Option Char
  | '0' => some '\x00'
  | 't' => some '\t'
  | 'r' => some '\r'
  | 'n' => some '\n'
  | '"' => some '"'
  | '\\' => some '\\'
  | _ => none

/-- The value of a lower-case hexadecimal digit. -/
def hexValue? (c : Char) : Option Nat :=
  if c.isDigit then some (c.toNat - '0'.toNat)
  else if 'a' ≤ c && c ≤ 'f' then some (c.toNat - 'a'.toNat + 10)
  else none

/-- **Where a reader stands in a written form**: in plain text, after a backslash, after the `u` of
a code point, or inside its braces with the value of the digits so far, if there were any. -/
inductive Position where
  | plain
  | escaped
  | opening
  | digits (value : Option Nat)

/-- Reads the rest of a written form from a position in it. -/
def decodeFrom : Position → List Char → Option (List Char)
  | .plain, [] => some []
  | .plain, c :: rest =>
    if c = '\\' then decodeFrom .escaped rest
    else if c = '"' then none
    else (decodeFrom .plain rest).map (c :: ·)
  | .escaped, c :: rest =>
    if c = 'u' then decodeFrom .opening rest
    else do
      let d ← ofLetter? c
      let ds ← decodeFrom .plain rest
      some (d :: ds)
  | .opening, c :: rest => if c = '{' then decodeFrom (.digits none) rest else none
  | .digits n?, c :: rest =>
    if c = '}' then do
      let n ← n?
      let ds ← decodeFrom .plain rest
      if n.isValidChar then some (Char.ofNat n :: ds) else none
    else do
      let d ← hexValue? c
      decodeFrom (.digits (some (16 * n?.getD 0 + d))) rest
  | _, [] => none

/-- **Reads a written form back.** A quote that no backslash precedes, an unknown letter, a code
point without digits or beyond the characters, and an unfinished escape are refused. -/
def decode (s : List Char) : Option (List Char) := decodeFrom .plain s

end Quoted

/-! ## Quotes -/

/-- **A text in double quotes**, with the characters of a set written by their code points. -/
def quoteHiding (hidden : Char → Bool) (s : String) : String :=
  String.ofList ('"' :: (Quoted.encode hidden s.toList ++ ['"']))

/-- **A text in double quotes**, with every unprintable character written by its code point. -/
def quote (s : String) : String := quoteHiding isUnprintable s

/-- **A frame for a text**: `f` puts the same words before every text and the same behind it, and no
double quote is among them. -/
def IsFrame (f : String → String) : Prop :=
  ∃ front back : String, '"' ∉ front.toList ∧ '"' ∉ back.toList ∧ ∀ s, f s = front ++ s ++ back

end TaggedWord.Text
