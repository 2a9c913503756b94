/-! # Sixty-four-bit words that carry a sign interpretation

A word is a pattern of 64 bits together with a tag that says how the pattern is read back. The
operations on words work on the pattern; the tag only decides the number that a pattern denotes.

* **`Signedness`** — the two readings of a pattern: two's complement, or a plain natural number.
* **`Word`** — a pattern and its tag.
* **`Word.value w : Int`** — the number that `w` denotes under its tag. Equality, order, hashing and
  the decimal text of words are all determined by this view.
* **`Word.ofSigned`**, **`Word.ofUnsigned`** — the embeddings of narrower machine integers, by sign
  extension and by zero extension. -/

namespace TaggedWord

/-- **The reading of a bit pattern**: as a two's-complement number or as a natural number. -/
inductive Signedness where
  | signed
  | unsigned
  deriving DecidableEq, Repr

/-- **A tagged word**: sixty-four bits and the way they are to be read. Structural equality compares
both; the equality of the numbers denoted is `Word.eqv`. -/
structure Word where
  /-- The bit pattern. -/
  bits : BitVec 64
  /-- The reading of the pattern. -/
  tag : Signedness
  deriving DecidableEq, Repr

namespace Word

/-- Words with the same `bits` and `tag` are the same. -/
@[ext] theorem ext {a b : Word} (bits_eq : a.bits = b.bits) (tag_eq : a.tag = b.tag) : a = b := by
  cases a; cases b; simp_all

/-! ## The number denoted -/

/-- The pattern as a two's-complement number, whatever the tag. -/
def asSigned (w : Word) : Int := w.bits.toInt

/-- The pattern as a natural number, whatever the tag. -/
def asUnsigned (w : Word) : Nat := w.bits.toNat

/-- **The number denoted by a word** under its own tag. It lies in `[-2^63, 2^63)` for a signed word
and in `[0, 2^64)` for an unsigned one. -/
def value (w : Word) : Int :=
  match w.tag with
  | .signed => w.asSigned
  | .unsigned => w.asUnsigned

@[simp] theorem value_signed (x : BitVec 64) : value ⟨x, .signed⟩ = x.toInt := rfl

@[simp] theorem value_unsigned (x : BitVec 64) : value ⟨x, .unsigned⟩ = x.toNat := rfl

/-- Whether the tag is `unsigned`. -/
def isUnsigned (w : Word) : Bool := w.tag == .unsigned

/-- The highest bit of the pattern. -/
def topBit (w : Word) : Bool := w.bits.msb

/-! ## Changing the reading -/

/-- **The same pattern under another tag.** -/
def retag (w : Word) (tag : Signedness) : Word := ⟨w.bits, tag⟩

@[simp] theorem bits_retag (w : Word) (tag : Signedness) : (w.retag tag).bits = w.bits := rfl

@[simp] theorem tag_retag (w : Word) (tag : Signedness) : (w.retag tag).tag = tag := rfl

@[simp] theorem retag_retag (w : Word) (tag tag' : Signedness) :
    (w.retag tag).retag tag' = w.retag tag' := rfl

/-- The pattern read as two's complement. -/
def toSigned (w : Word) : Word := w.retag .signed

/-- The pattern read as a natural number. -/
def toUnsigned (w : Word) : Word := w.retag .unsigned

/-! ## Machine integers -/

/-- **A two's-complement integer** of at most 64 bits, sign-extended. -/
def ofSigned {n : Nat} (x : BitVec n) : Word := ⟨x.signExtend 64, .signed⟩

/-- **A natural machine integer** of at most 64 bits, zero-extended. -/
def ofUnsigned {n : Nat} (x : BitVec n) : Word := ⟨x.setWidth 64, .unsigned⟩

/-! ## Named words -/

/-- Zero, signed. Operations that have no other answer give this word. -/
def zero : Word := ⟨0, .signed⟩

/-- One, signed. -/
def one : Word := ⟨1, .signed⟩

/-- Zero, unsigned. -/
def unsignedZero : Word := ⟨0, .unsigned⟩

/-- The radix step of decimal reading: eight digits at a time. -/
def tenToEight : Word := ⟨100000000, .signed⟩

/-- The least signed word, `-2^63`. -/
def minValue : Word := ⟨0x8000000000000000, .signed⟩

/-- The greatest signed word, `2^63 - 1`. -/
def maxValue : Word := ⟨0x7FFFFFFFFFFFFFFF, .signed⟩

/-- The greatest unsigned word, `2^64 - 1`. -/
def maxUnsignedValue : Word := ⟨0xFFFFFFFFFFFFFFFF, .unsigned⟩

instance : Inhabited Word := ⟨zero⟩

@[simp] theorem value_zero : zero.value = 0 := by decide

@[simp] theorem value_one : one.value = 1 := by decide

@[simp] theorem value_minValue : minValue.value = -0x8000000000000000 := by decide

@[simp] theorem value_maxValue : maxValue.value = 0x7FFFFFFFFFFFFFFF := by decide

@[simp] theorem value_maxUnsignedValue : maxUnsignedValue.value = 0xFFFFFFFFFFFFFFFF := by decide

end Word

end TaggedWord
