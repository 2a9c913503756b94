import TaggedWord.Value
import Mathlib.Data.ZMod.Basic

/-! # Expressions over words

An expression applies operations to operands. Over words it is evaluated by the operations on words;
over bit patterns it has a second meaning, in the integers modulo `2^64`, where no tag occurs. The
two agree on the pattern of the result (`asUnsigned_eval_eq_val_residue`), although negation, the
product and the shift look at tags on their way.

* **`Expr`** — expressions, with the operations `UnaryOp` and `BinaryOp`.
* **`Expr.eval`** — the word of an expression over words.
* **`Expr.residue`** — the integer modulo `2^64` of an expression over patterns.
* **`Expr.withoutRetags`** — an expression with its changes of reading left out. -/

namespace TaggedWord

/-! ## Expressions -/

/-- **The operations on one operand.** -/
inductive UnaryOp where
  | neg
  | not
  | toSigned
  | toUnsigned
  deriving DecidableEq, Repr

/-- **The operations on two operands.** The second operand of a shift is its count. -/
inductive BinaryOp where
  | add
  | sub
  | mul
  | and
  | or
  | shiftLeft
  deriving DecidableEq, Repr

/-- **An expression** over operands of some type. -/
inductive Expr (α : Type) where
  | leaf (a : α)
  | unary (op : UnaryOp) (e : Expr α)
  | binary (op : BinaryOp) (e f : Expr α)
  deriving DecidableEq, Repr

/-- An operation on a word. -/
def UnaryOp.apply : UnaryOp → Word → Word
  | neg, w => w.neg
  | not, w => w.not
  | toSigned, w => w.toSigned
  | toUnsigned, w => w.toUnsigned

/-- An operation on two words. The mask of a bitwise operation is a word here. -/
def BinaryOp.apply : BinaryOp → Word → Word → Word
  | add, a, b => a.add b
  | sub, a, b => a.sub b
  | mul, a, b => a.mul b
  | and, a, b => a.andValue (.word b)
  | or, a, b => a.orValue (.word b)
  | shiftLeft, a, b => a.shiftLeft b

namespace Expr

variable {α β : Type}

/-- **The word of an expression.** -/
def eval : Expr Word → Word
  | leaf w => w
  | unary op e => op.apply e.eval
  | binary op e f => op.apply e.eval f.eval

/-- The same expression over other operands. -/
def map (f : α → β) : Expr α → Expr β
  | leaf a => leaf (f a)
  | unary op e => unary op (e.map f)
  | binary op e g => binary op (e.map f) (g.map f)

/-- **The expression without its changes of reading.** -/
def withoutRetags : Expr α → Expr α
  | leaf a => leaf a
  | unary .neg e => unary .neg e.withoutRetags
  | unary .not e => unary .not e.withoutRetags
  | unary .toSigned e => e.withoutRetags
  | unary .toUnsigned e => e.withoutRetags
  | binary op e f => binary op e.withoutRetags f.withoutRetags

end Expr

/-! ## Patterns as integers modulo `2^64` -/

/-- **The integers modulo `2^64`.** -/
abbrev Residue := ZMod (2 ^ 64)

/-- The integer modulo `2^64` of a pattern. -/
def residueOf (x : BitVec 64) : Residue := x.toNat

/-- `residueOf x` has `x.toNat` as its representative below `2 ^ 64`. -/
@[simp] theorem val_residueOf (x : BitVec 64) : (residueOf x).val = x.toNat :=
  ZMod.val_natCast_of_lt x.isLt

/-- `residueOf (x + y) = residueOf x + residueOf y`: patterns are added modulo `2 ^ 64`. -/
theorem residueOf_add (x y : BitVec 64) : residueOf (x + y) = residueOf x + residueOf y := by
  rw [residueOf, BitVec.toNat_add, ZMod.natCast_mod, Nat.cast_add, residueOf, residueOf]

/-- `residueOf (-x) = -residueOf x`: negation is the additive inverse modulo `2 ^ 64`. -/
theorem residueOf_neg (x : BitVec 64) : residueOf (-x) = -residueOf x := by
  rw [residueOf, BitVec.toNat_neg, ZMod.natCast_mod, Nat.cast_sub x.isLt.le, ZMod.natCast_self,
    zero_sub, residueOf]

/-- `residueOf (x - y) = residueOf x - residueOf y`: patterns are subtracted modulo `2 ^ 64`. -/
theorem residueOf_sub (x y : BitVec 64) : residueOf (x - y) = residueOf x - residueOf y := by
  rw [BitVec.sub_eq_add_neg, residueOf_add, residueOf_neg, sub_eq_add_neg]

/-- `residueOf (x * y) = residueOf x * residueOf y`: patterns are multiplied modulo `2 ^ 64`. -/
theorem residueOf_mul (x y : BitVec 64) : residueOf (x * y) = residueOf x * residueOf y := by
  rw [residueOf, BitVec.toNat_mul, ZMod.natCast_mod, Nat.cast_mul, residueOf, residueOf]

/-- `residueOf (~~~x) = 2 ^ 64 - 1 - residueOf x`: a pattern and its inverse have the sum of all
bits. -/
theorem residueOf_not (x : BitVec 64) : residueOf (~~~x) = 2 ^ 64 - 1 - residueOf x := by
  have hx := x.isLt
  rw [residueOf, BitVec.toNat_not, Nat.cast_sub (by omega), Nat.cast_sub (by omega), residueOf]
  norm_cast

/-- `residueOf (x <<< n) = residueOf x * 2 ^ n`: a shift multiplies by a power of two. -/
theorem residueOf_shiftLeft (x : BitVec 64) (n : Nat) :
    residueOf (x <<< n) = residueOf x * 2 ^ n := by
  rw [residueOf, BitVec.toNat_shiftLeft, ZMod.natCast_mod, Nat.shiftLeft_eq, Nat.cast_mul,
    Nat.cast_pow, residueOf]
  norm_cast

/-! ## The second meaning -/

/-- An operation on one integer modulo `2^64`. A change of reading is none. -/
def UnaryOp.residue : UnaryOp → Residue → Residue
  | neg, x => -x
  | not, x => 2 ^ 64 - 1 - x
  | toSigned, x => x
  | toUnsigned, x => x

/-- An operation on two integers modulo `2^64`. The bitwise ones act on their representatives below
`2^64`, and a shift multiplies by a power of two. -/
def BinaryOp.residue : BinaryOp → Residue → Residue → Residue
  | add, x, y => x + y
  | sub, x, y => x - y
  | mul, x, y => x * y
  | and, x, y => (x.val &&& y.val : Nat)
  | or, x, y => (x.val ||| y.val : Nat)
  | shiftLeft, x, y => x * 2 ^ (y.val % 64)

/-- **The integer modulo `2^64` of an expression over patterns.** -/
def Expr.residue : Expr (BitVec 64) → Residue
  | leaf x => residueOf x
  | unary op e => op.residue e.residue
  | binary op e f => op.residue e.residue f.residue

/-! ## Agreement -/

/-- `op.apply w` is `op.residue` on the pattern of `w`, whatever its tag. -/
theorem UnaryOp.residue_bits_apply (op : UnaryOp) (w : Word) :
    residueOf (op.apply w).bits = op.residue (residueOf w.bits) := by
  cases op with
  | neg =>
    -- the rule for `-2^63` gives the pattern that negation gives anyway
    rw [apply, Word.bits_neg, residueOf_neg, residue]
  | not => rw [apply, Word.bits_not, residueOf_not, residue]
  | toSigned => rfl
  | toUnsigned => rfl

/-- `op.apply a b` is `op.residue` on the patterns of `a` and `b`, whatever their tags. -/
theorem BinaryOp.residue_bits_apply (op : BinaryOp) (a b : Word) :
    residueOf (op.apply a b).bits = op.residue (residueOf a.bits) (residueOf b.bits) := by
  cases op with
  | add => rw [apply, Word.bits_add, residueOf_add, residue]
  | sub => rw [apply, Word.bits_sub, residueOf_sub, residue]
  | mul =>
    -- all rules of the product agree on the pattern, though not on the tag
    rw [apply, Word.bits_mul, residueOf_mul, residue]
  | and =>
    rw [apply, Word.andValue_word, Word.bits_and, residue, val_residueOf, val_residueOf,
      residueOf, BitVec.toNat_and]
  | or =>
    rw [apply, Word.orValue_word, Word.bits_or, residue, val_residueOf, val_residueOf,
      residueOf, BitVec.toNat_or]
  | shiftLeft =>
    -- the lower half of the count is extended by its tag, which its residue modulo 64 survives
    rw [apply, Word.bits_shiftLeft, residueOf_shiftLeft, residue, val_residueOf,
      Word.shiftAmount_eq, Word.asUnsigned]

namespace Expr

/-- `e.eval` has the pattern of `Expr.residue`, taken over the patterns of the leaves. -/
theorem residue_bits_eval (e : Expr Word) :
    residueOf e.eval.bits = (e.map Word.bits).residue := by
  induction e with
  | leaf w => rfl
  | unary op e ih => rw [eval, UnaryOp.residue_bits_apply, ih, map, residue]
  | binary op e f ihe ihf => rw [eval, BinaryOp.residue_bits_apply, ihe, ihf, map, residue]

/-- Changes of reading do not change the integer modulo `2^64`. -/
@[simp] theorem residue_withoutRetags (e : Expr (BitVec 64)) :
    e.withoutRetags.residue = e.residue := by
  induction e with
  | leaf x => rfl
  | unary op e ih =>
    cases op with
    | neg => rw [withoutRetags, residue, residue, ih]
    | not => rw [withoutRetags, residue, residue, ih]
    | toSigned => exact ih
    | toUnsigned => exact ih
  | binary op e f ihe ihf => rw [withoutRetags, residue, residue, ihe, ihf]

/-- **Tags never influence bits.** The pattern of `e.eval` is `(e.map Word.bits).residue`, computed
in the integers modulo `2 ^ 64` from the patterns of the leaves alone. So two expressions have the
same pattern if they differ in nothing but the tags of leaves and changes of reading anywhere, that
is if `withoutRetags` over the patterns is the same. -/
theorem asUnsigned_eval_eq_val_residue :
    (∀ e : Expr Word, e.eval.asUnsigned = (e.map Word.bits).residue.val) ∧
    ∀ e f : Expr Word, (e.map Word.bits).withoutRetags = (f.map Word.bits).withoutRetags →
      e.eval.bits = f.eval.bits := by
  have hval : ∀ e : Expr Word, e.eval.asUnsigned = (e.map Word.bits).residue.val := by
    intro e
    rw [← residue_bits_eval, val_residueOf, Word.asUnsigned]
  refine ⟨hval, fun e f h => ?_⟩
  apply BitVec.eq_of_toNat_eq
  have he := hval e
  have hf := hval f
  rw [← residue_withoutRetags, h, residue_withoutRetags, ← hf] at he
  exact he

/-- The product of a negated `2^63` and three, once with tags that take the rule of the product for
`-2^63` and once with tags and changes of reading that avoid it. -/
theorem bits_eval_eq_across_tags :
    ((binary .mul (unary .neg (leaf Word.minValue)) (leaf ⟨3, .unsigned⟩)).map
        Word.bits).withoutRetags
      = ((unary .toSigned (binary .mul (unary .neg (unary .toUnsigned (leaf Word.minValue)))
        (leaf ⟨3, .signed⟩))).map Word.bits).withoutRetags ∧
    (binary .mul (unary .neg (leaf Word.minValue)) (leaf ⟨3, .unsigned⟩)).eval.bits
      = (unary .toSigned (binary .mul (unary .neg (unary .toUnsigned (leaf Word.minValue)))
        (leaf ⟨3, .signed⟩))).eval.bits :=
  ⟨rfl, asUnsigned_eval_eq_val_residue.2 _ _ rfl⟩

end Expr

end TaggedWord
