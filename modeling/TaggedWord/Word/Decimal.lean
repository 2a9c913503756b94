import TaggedWord.Word.Arith
import TaggedWord.Text.Layout
import TaggedWord.Text.Quoted

/-! # Decimal text of words

A word is written as the decimal number it denotes. Reading accepts any number of minus signs, each
of which negates, followed by at least one of the digits `0` to `9`; a number beyond 64 bits wraps.

* **`Word.decimal`** — the text of a word.
* **`Word.format`** — that text in a field of a given layout.
* **`Word.parse?`** — the word that a text spells under a tag, if it spells one.
* **`Word.ofDigits`** — the signed word of a list of digits, taken in eight at a time.
* **`Word.parse`** — signed reading with an error that quotes the refused text. -/

namespace TaggedWord

namespace Word

/-! ## Writing -/

/-- The digits of the magnitude of a word. -/
def digits (w : Word) : List Char := Nat.toDigits 10 w.value.natAbs

/-- The sign of a word: a minus for a number below zero, nothing otherwise. -/
def sign (w : Word) : List Char := if w.isNegative then ['-'] else []

/-- **The decimal text of a word** under its tag. -/
def decimal (w : Word) : String := String.ofList (w.sign ++ w.digits)

instance : ToString Word := ⟨decimal⟩

/-- The word with the name of its reading, `Long(-3_i64)` or `Long(3_u64)`. -/
def describe (w : Word) : String :=
  "Long(" ++ w.decimal ++ (if w.isUnsigned then "_u64)" else "_i64)")

/-- **The text of a word in a layout.** The descriptive text is not laid out. -/
def format (l : Text.Layout) (w : Word) : String :=
  if l.descriptive then w.describe
  else
    let sign := if l.plus && !w.isNegative then ['+'] else w.sign
    String.ofList (l.field sign w.digits)

/-! ## Reading digits -/

/-- The number of digits taken in by one step of reading. -/
def chunkDigits : Nat := 8

/-- **Cuts a list into pieces** of `size` elements, the last of which may be shorter. -/
def chunksOf {α : Type} (size : Nat) : List α → List (List α)
  | [] => []
  | a :: rest => (a :: rest.take (size - 1)) :: chunksOf size (rest.drop (size - 1))
termination_by s => s.length
decreasing_by simp only [List.length_drop, List.length_cons]; omega

/-- Ten to the power `n`, a signed word. -/
def powerOfTen (n : Nat) : Word := ⟨BitVec.ofNat 64 (Nat.pow 10 n), .signed⟩

/-- The radix step of a full piece is the named word. -/
theorem powerOfTen_chunkDigits : powerOfTen chunkDigits = tenToEight := by decide

/-- **One step of reading**: makes room for the digits of a piece and adds the number they spell. -/
def absorb (w : Word) (piece : List Char) : Word :=
  (w.mul (powerOfTen piece.length)).add ⟨BitVec.ofNat 64 (Nat.ofDigitChars 10 piece 0), .signed⟩

/-- **The signed word that digits spell**, modulo `2^64`. -/
def ofDigits (ds : List Char) : Word := (chunksOf chunkDigits ds).foldl absorb zero

/-! ## Reading -/

/-- **The word that characters spell**: minus signs, each of which negates, and then digits. The
digits are read as a signed word, which takes the tag asked for before it is negated. -/
def ofChars? (tag : Signedness) (s : List Char) : Option Word :=
  let ds := s.dropWhile (· == '-')
  if ds.isEmpty || !ds.all Char.isDigit then none
  else
    let w := (ofDigits ds).retag tag
    some (if (s.takeWhile (· == '-')).length % 2 = 1 then w.neg else w)

/-- **The word that a text spells** under a tag. -/
def parse? (tag : Signedness) (s : String) : Option Word := ofChars? tag s.toList

/-- The signed word that a text spells, or zero. -/
def parseD (s : String) : Word := (parse? .signed s).getD zero

end Word

/-! ## Refused texts -/

/-- **Why a text is no number.** -/
structure ParseError where
  /-- The reason, in words. -/
  reason : String
  deriving DecidableEq, Repr

namespace ParseError

/-- **The error of a text that does not spell a word**, quoted with a set of hidden characters. -/
def invalidLiteralHiding (hidden : Char → Bool) (s : String) : ParseError :=
  ⟨"invalid integer literal " ++ Text.quoteHiding hidden s⟩

/-- The error of a text that does not spell a word, with its unprintable characters hidden. -/
def invalidLiteral (s : String) : ParseError := invalidLiteralHiding Text.isUnprintable s

/-- The text shown for an error: its reason. -/
def message (e : ParseError) : String := e.reason

/-- The error with its type and field names. -/
def describe (e : ParseError) : String :=
  "ParseLongError \x7b reason: " ++ Text.quote e.reason ++ " \x7d"

end ParseError

/-- **Signed reading with an error value**: the error quotes the refused text. -/
def Word.parse (s : String) : Except ParseError Word :=
  match Word.parse? .signed s with
  | some w => .ok w
  | none => .error (.invalidLiteral s)

end TaggedWord
