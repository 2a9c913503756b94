import TaggedWord.Word.Decimal
import TaggedWord.Word.Number
import TaggedWord.Number.Decimal

/-! # Words from self-describing data

A data format hands over what it finds, and a word is made of it if its kind allows: machine
integers, floating-point numbers and decimal texts become words, anything else is an error that
names what was found. How the error is worded is up to the format.

* **`Datum`** — what a format can hand over.
* **`Word.ofDatum`** — the word made of a datum, or the `DataError` that says why none could be
  made.
* **`ErrorWording`** — the words of a format for its errors, a parameter of `DataError.messageIn`;
  `ErrorWording.QuotesTexts` states what is relied on for refused texts.
* **`ErrorWording.plain`** — a wording in plain English, in which `DataError.message` is written. -/

namespace TaggedWord

/-! ## Data -/

/-- **The widths of machine integers.** -/
inductive Width where
  | w8
  | w16
  | w32
  | w64
  deriving DecidableEq, Repr

/-- The number of bits of a width. -/
def Width.bits : Width → Nat
  | w8 => 8
  | w16 => 16
  | w32 => 32
  | w64 => 64

/-- **What a data format hands over.** Of bytes, lists and maps only the kind is kept. -/
inductive Datum where
  /-- A two's-complement integer. -/
  | signed (width : Width) (n : BitVec width.bits)
  /-- A natural machine integer. -/
  | unsigned (width : Width) (n : BitVec width.bits)
  /-- A two's-complement integer of 128 bits. -/
  | wideSigned (n : BitVec 128)
  /-- A natural machine integer of 128 bits. -/
  | wideUnsigned (n : BitVec 128)
  | float (x : Binary64)
  | text (s : String)
  | boolean (b : Bool)
  | bytes
  | unit
  | sequence
  | mapping
  deriving DecidableEq, Repr

/-! ## Errors -/

/-- **What was to be read.** -/
inductive Wanted where
  | word
  | list
  | map
  deriving DecidableEq, Repr

/-- What was to be read, in words. -/
def Wanted.describe : Wanted → String
  | word => "a 64-bit integer or a decimal string"
  | list => "a sequence"
  | map => "a map"

/-- **Why data of a readable form was refused.** -/
inductive DataError where
  /-- Data of another kind than wanted. -/
  | wrongKind (found : Datum) (wanted : Wanted)
  /-- A text that spells no word. -/
  | badText (s : String)
  deriving DecidableEq, Repr

/-! ## Words -/

namespace Word

/-- **The word of a natural machine integer.** It is signed if its value fits a signed word. -/
def ofMachineNat {n : Nat} (x : BitVec n) : Word :=
  let w := ofUnsigned x
  if w.topBit then w else w.toSigned

/-- **The signed word that a text spells**, or the error that quotes the text. -/
def ofText (s : String) : Except DataError Word :=
  match parse? .signed s with
  | some w => .ok w
  | none => .error (.badText s)

/-- **The word made of a datum.** -/
def ofDatum : Datum → Except DataError Word
  | .signed _ n => .ok (ofSigned n)
  | .unsigned _ n => .ok (ofMachineNat n)
  | .float x => .ok (ofNumber .signed x)
  | .text s => ofText s
  | d => .error (.wrongKind d .word)

end Word

/-! ## The wording of errors -/

/-- **How a data format words its errors.** What was found and what was expected come in words of
their own, which a message puts together. -/
structure ErrorWording where
  /-- What was found, in words. -/
  describe : Datum → String
  /-- The message about data of another kind than expected. -/
  wrongKind (found expected : String) : String
  /-- The message about data of the right kind that has no meaning. -/
  badValue (found expected : String) : String

/-- **The text of an error** in the words of a format. -/
def DataError.messageIn (words : ErrorWording) : DataError → String
  | wrongKind found wanted => words.wrongKind (words.describe found) wanted.describe
  | badText s => words.badValue (words.describe (.text s)) Wanted.word.describe

/-- **What is relied on for refused texts**: they are quoted, with the characters of a set written
by their code points, and no other quote stands in the message. -/
structure ErrorWording.QuotesTexts (words : ErrorWording) (hidden : Char → Bool) : Prop where
  /-- The description of a text has its quoted form in it. -/
  describe_text : ∃ f, Text.IsFrame f ∧
    ∀ s, words.describe (.text s) = f (Text.quoteHiding hidden s)
  /-- The message about a bad value has what was found in it. -/
  badValue_isFrame (expected : String) : '"' ∉ expected.toList →
    Text.IsFrame fun found => words.badValue found expected

/-! ## Plain words -/

namespace Datum

/-- Floating-point numbers in messages: without an exponent while the leading digit stands between
`10^-5` and `10^15`, always with a point or an exponent, and with the even one of two equally near
decimals. -/
def numberStyle : NumberStyle where
  positional := fun e => -5 ≤ e && e ≤ 15
  pointZero := true
  tie := .even

/-- **A datum in plain words**, with `unitName` for the unit value. -/
def describe (unitName : String) : Datum → String
  | signed _ n => "integer `" ++ n.toInt.repr ++ "`"
  | unsigned _ n => "integer `" ++ n.toNat.repr ++ "`"
  | wideSigned n => "integer `" ++ n.toInt.repr ++ "` as i128"
  | wideUnsigned n => "integer `" ++ n.toNat.repr ++ "` as u128"
  | float x => "floating point `" ++ x.render numberStyle ++ "`"
  | text s => "string " ++ Text.quote s
  | boolean b => "boolean `" ++ (if b then "true" else "false") ++ "`"
  | bytes => "byte array"
  | unit => unitName
  | sequence => "sequence"
  | mapping => "map"

end Datum

/-- **A wording in plain English.** Formats differ in what they call the unit value. -/
def ErrorWording.plain (unitName : String) : ErrorWording where
  describe := Datum.describe unitName
  wrongKind found expected := "invalid type: " ++ found ++ ", expected " ++ expected
  badValue found expected := "invalid value: " ++ found ++ ", expected " ++ expected

/-- **The text of an error** in plain English. -/
def DataError.message (unitName : String) (e : DataError) : String :=
  e.messageIn (.plain unitName)

end TaggedWord
