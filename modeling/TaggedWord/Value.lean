import TaggedWord.Word.Decimal
import TaggedWord.Word.Number
import TaggedWord.Number.Decimal

/-! # Values of a dynamically typed host

A host hands over values of several kinds, and numbers, decimal texts and words among them can stand
for a word.

* **`Value`** — the kinds of value.
* **`Value.toWord?`** — the word that a value stands for under a tag, if it stands for one.
* **`Word.andValue`**, **`Word.orValue`** — bitwise operations with a value as mask. -/

namespace TaggedWord

/-- **A value of the host.** -/
inductive Value where
  | undefined
  | null
  | bool (b : Bool)
  | number (x : Binary64)
  | text (s : String)
  | word (w : Word)

namespace Value

/-! ## Kinds -/

/-- Whether a value is the undefined one. -/
def isUndefined : Value → Bool
  | undefined => true
  | _ => false

/-- Whether a value already is a word. -/
def isWord : Value → Bool
  | word _ => true
  | _ => false

/-- The value of a 32-bit integer, which the host keeps as a number. -/
def ofInt (n : Int) : Value := number (.ofInt n)

/-- The value of something that may be missing: null stands for its absence. -/
def ofOption : Option Value → Value
  | some v => v
  | none => null

/-! ## Coercion -/

/-- **The word that a value stands for.** Numbers and texts are read under the tag; a word keeps its
own. -/
def toWord? (tag : Signedness) : Value → Option Word
  | number x => some (.ofNumber tag x)
  | text s => Word.parse? tag s
  | word w => some w
  | undefined | null | bool _ => none

/-- **Coercion that keeps `undefined` apart**: the outer `none` says that there was no value, the
inner one that it stands for no word. -/
def toWordUnlessUndefined? (tag : Signedness) (v : Value) : Option (Option Word) :=
  if v.isUndefined then none else some (v.toWord? tag)

/-! ## Equality and text -/

/-- **Equality of values**: of one kind, with contents equal as numbers, texts or words. -/
def eqv : Value → Value → Bool
  | undefined, undefined => true
  | null, null => true
  | bool b, bool c => b == c
  | number x, number y => x.eqv y
  | text s, text t => s == t
  | word a, word b => a.eqv b
  | _, _ => false

/-- Numbers are shown with the fewest digits, all of them before or after the point and never with
an exponent; of two equally near decimals the greater is shown. -/
def numberStyle : NumberStyle where
  positional := fun _ => true
  pointZero := false
  tie := .up

/-- **The text that describes a value.** Texts stand between quotes as they are. -/
def describe : Value → String
  | undefined => "undefined"
  | null => "null"
  | bool true => "true"
  | bool false => "false"
  | number x => x.render numberStyle
  | text s => "\"" ++ s ++ "\""
  | word w => w.describe

end Value

/-! ## Masks -/

/-- **The bits of a word that a mask keeps**, tagged like the word. A mask that stands for no word
gives the signed zero. -/
def Word.andValue (w : Word) (mask : Value) : Word :=
  match mask.toWord? .signed with
  | some m => w.and m
  | none => .zero

/-- **The bits of a word with those of a mask set**, tagged like the word. A mask that stands for no
word gives the signed zero. -/
def Word.orValue (w : Word) (mask : Value) : Word :=
  match mask.toWord? .signed with
  | some m => w.or m
  | none => .zero

@[simp] theorem Word.andValue_word (w m : Word) : w.andValue (.word m) = w.and m := rfl

@[simp] theorem Word.orValue_word (w m : Word) : w.orValue (.word m) = w.or m := rfl

end TaggedWord
