import TaggedWord.Word.Order

/-! # Bitwise operations on words

Each operation acts on the patterns and keeps the tag of its first operand.

* **`Word.not`**, **`Word.and`**, **`Word.or`** — the operations bit by bit.
* **`Word.low32`** — the lower half of a word as an integer.
* **`Word.shiftLeft`** — a left shift whose count is a word, taken modulo 64. -/

namespace TaggedWord.Word

/-! ## Bit by bit -/

/-- Every bit inverted. -/
def not (w : Word) : Word := ⟨~~~w.bits, w.tag⟩

/-- The bits set in both words, tagged like the first. -/
def and (a b : Word) : Word := ⟨a.bits &&& b.bits, a.tag⟩

/-- The bits set in at least one of the words, tagged like the first. -/
def or (a b : Word) : Word := ⟨a.bits ||| b.bits, a.tag⟩

instance : Complement Word := ⟨not⟩

instance : AndOp Word := ⟨and⟩

instance : OrOp Word := ⟨or⟩

@[simp] theorem bits_not (w : Word) : w.not.bits = ~~~w.bits := rfl

@[simp] theorem tag_not (w : Word) : w.not.tag = w.tag := rfl

@[simp] theorem bits_and (a b : Word) : (a.and b).bits = a.bits &&& b.bits := rfl

@[simp] theorem tag_and (a b : Word) : (a.and b).tag = a.tag := rfl

@[simp] theorem bits_or (a b : Word) : (a.or b).bits = a.bits ||| b.bits := rfl

@[simp] theorem tag_or (a b : Word) : (a.or b).tag = a.tag := rfl

/-! ## Shifts -/

/-- **The lower half of a word**: its low 32 bits, read under the tag of the word. -/
def low32 (w : Word) : Int :=
  match w.tag with
  | .signed => (w.bits.setWidth 32).toInt
  | .unsigned => (w.bits.setWidth 32).toNat

/-- **The number of places of a shift** by `count`: the residue of its lower half modulo 64, in
`0 … 63` also for a negative count. -/
def shiftAmount (count : Word) : Nat := (count.low32 % 64).toNat

/-- **Left shift** by the count modulo 64, tagged like the shifted word. -/
def shiftLeft (w count : Word) : Word := ⟨w.bits <<< count.shiftAmount, w.tag⟩

instance : HShiftLeft Word Word Word := ⟨shiftLeft⟩

@[simp] theorem bits_shiftLeft (w count : Word) :
    (w.shiftLeft count).bits = w.bits <<< count.shiftAmount := rfl

@[simp] theorem tag_shiftLeft (w count : Word) : (w.shiftLeft count).tag = w.tag := rfl

/-- `count.shiftAmount = count.asUnsigned % 64`: the lower half determines the residue of the whole
count, under either reading. -/
theorem shiftAmount_eq (count : Word) : count.shiftAmount = count.asUnsigned % 64 := by
  obtain ⟨x, tag⟩ := count
  cases tag with
  | signed =>
    simp only [shiftAmount, low32, asUnsigned, BitVec.toInt_eq_toNat_cond, BitVec.toNat_setWidth]
    split <;> omega
  | unsigned =>
    simp only [shiftAmount, low32, asUnsigned, BitVec.toNat_setWidth]
    omega

/-- `count.shiftAmount < 64`: no shift moves a word by 64 places or more. -/
theorem shiftAmount_lt (count : Word) : count.shiftAmount < 64 := by
  unfold shiftAmount; omega

end TaggedWord.Word
