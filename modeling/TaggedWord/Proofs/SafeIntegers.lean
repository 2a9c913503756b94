import TaggedWord.Proofs.ExpressionTags
import TaggedWord.Proofs.NearestNumber

/-! # Arithmetic on the integers that numbers hold exactly

Up to `2^53` floating-point numbers hold every integer. An expression of arithmetic over such
numbers can be evaluated on words, where it wraps modulo `2^64`, perhaps many times. If its exact
integer is again one of these, the word denotes it, and converted to a number it is that integer
(`exact_on_safe_integers`).

* **`Binary64.IsSafeInteger`** — the numbers that are integers up to `2^53`.
* **`Expr.evalNumbers`** — the word of an expression over numbers.
* **`Expr.map_congr`**, **`Expr.leaves_map`** — an expression over other operands. -/

namespace TaggedWord

/-! ## Other operands -/

namespace Expr

variable {α β γ : Type}

/-- Two maps of an expression in a row are one. -/
@[simp] theorem map_map (g : β → γ) (f : α → β) (e : Expr α) :
    (e.map f).map g = e.map fun a => g (f a) := by
  induction e with
  | leaf a => rfl
  | unary op e ih => rw [map, map, ih, map]
  | binary op e f ihe ihf => rw [map, map, ihe, ihf, map]

/-- `e.map` with nothing done to the operands is `e`. -/
@[simp] theorem map_id (e : Expr α) : (e.map fun a => a) = e := by
  induction e with
  | leaf a => rfl
  | unary op e ih => rw [map, ih]
  | binary op e f ihe ihf => rw [map, ihe, ihf]

/-- `e.map f = e.map g` if `f` and `g` agree on `e.leaves`. -/
theorem map_congr {f g : α → β} {e : Expr α} (h : ∀ a ∈ e.leaves, f a = g a) :
    e.map f = e.map g := by
  induction e with
  | leaf a => rw [map, map, h a (List.mem_singleton_self a)]
  | unary op e ih => rw [map, map, ih h]
  | binary op e e' ihe ihe' =>
    obtain ⟨he, he'⟩ := List.forall_mem_append.mp h
    rw [map, map, ihe he, ihe' he']

/-- The `leaves` of `e.map f` are those of `e`, mapped. -/
@[simp] theorem leaves_map (f : α → β) (e : Expr α) : (e.map f).leaves = e.leaves.map f := by
  induction e with
  | leaf a => rfl
  | unary op e ih => exact ih
  | binary op e e' ihe ihe' => rw [map, leaves, ihe, ihe', leaves, List.map_append]

/-- `IsArithmetic` does not depend on the operands. -/
@[simp] theorem isArithmetic_map (f : α → β) (e : Expr α) :
    (e.map f).IsArithmetic ↔ e.IsArithmetic := by
  induction e with
  | leaf a => rfl
  | unary op e ih => rw [map, IsArithmetic, ih, IsArithmetic]
  | binary op e e' ihe ihe' => rw [map, IsArithmetic, ihe, ihe', IsArithmetic]

/-- No operation of arithmetic changes the reading: `IsArithmetic` expressions are `RetagFree`. -/
theorem IsArithmetic.retagFree {e : Expr α} (h : e.IsArithmetic) : e.RetagFree := by
  induction e with
  | leaf a => trivial
  | unary op e ih => exact ⟨.inl h.1, ih h.2⟩
  | binary op e e' ihe ihe' => exact ⟨ihe h.2.1, ihe' h.2.2⟩

end Expr

/-! ## Safe integers -/

/-- Integers with `|z| ≤ 2 ^ 53` are in the signed range. -/
theorem Signedness.inRange_of_abs_le {z : Int} (hz : |z| ≤ 2 ^ 53) : signed.InRange z := by
  obtain ⟨hlo, hhi⟩ := abs_le.mp hz
  constructor <;> omega

namespace Binary64

/-- **The integer of a number**, which is its whole part if it is no integer. -/
def integer (x : Binary64) : Int := truncate x.toRat

/-- **The numbers that are integers up to `2^53`**, of either sign. -/
structure IsSafeInteger (x : Binary64) : Prop where
  finite : x.exponent < 2047
  toRat_eq : x.toRat = x.integer
  abs_le : |x.integer| ≤ 2 ^ 53

/-- `(ofInt z).integer = z` for `|z| ≤ 2 ^ 53`. -/
theorem integer_ofInt {z : Int} (hz : |z| ≤ 2 ^ 53) : (ofInt z).integer = z := by
  rw [integer, toRat_ofInt (isExact_of_abs_le hz), truncate_intCast]

/-- `ofInt z` is safe for `|z| ≤ 2 ^ 53`. -/
theorem isSafeInteger_ofInt {z : Int} (hz : |z| ≤ 2 ^ 53) : (ofInt z).IsSafeInteger where
  finite := exponent_ofInt_lt (isExact_of_abs_le hz) (Nat.le_refl _)
  toRat_eq := by rw [integer_ofInt hz, toRat_ofInt (isExact_of_abs_le hz)]
  abs_le := by rwa [integer_ofInt hz]

end Binary64

namespace Word

/-- `ofNumber .signed x` denotes `x.integer` for a safe integer. -/
theorem value_ofNumber_of_isSafeInteger {x : Binary64} (hx : x.IsSafeInteger) :
    (ofNumber .signed x).value = x.integer := by
  have hclamp := (Signedness.inRange_of_abs_le hx.abs_le).clamp_eq
  rw [(value_ofNumber .signed (Binary64.isNaN_of_exponent_lt hx.finite)).2]
  exact hclamp

/-- `ofInt .signed z` is converted to `z` for `|z| ≤ 2 ^ 53`. -/
theorem toRat_toNumber_ofInt {z : Int} (hz : |z| ≤ 2 ^ 53) :
    (ofInt .signed z).toNumber.toRat = z := by
  rw [toNumber, value_ofInt (Signedness.inRange_of_abs_le hz),
    Binary64.toRat_ofInt (Binary64.isExact_of_abs_le hz)]

/-- `ofNumber .signed x` is the word of `z` for every number, a negative zero among them, that is an
integer with `|z| ≤ 2 ^ 53`. -/
theorem ofNumber_eq_ofInt_of_abs_le {x : Binary64} {z : Int} (hfinite : x.exponent < 2047)
    (hx : x.toRat = z) (hz : |z| ≤ 2 ^ 53) : ofNumber .signed x = ofInt .signed z := by
  rw [ofNumber_of_toRat_eq .signed hfinite hx, (Signedness.inRange_of_abs_le hz).clamp_eq]

end Word

/-! ## Expressions over numbers -/

namespace Expr

/-- **The word of an expression over numbers**, each of which is made a signed word. A number that
is a second operand can be handed over as it is, and the operation makes the same word of it. -/
def evalNumbers (e : Expr Binary64) : Word := (e.map (Word.ofNumber .signed)).eval

/-- `evalNumbers` with a number as second operand: the operation is given the signed word of it. -/
theorem evalNumbers_binary_leaf (op : BinaryOp) (e : Expr Binary64) (x : Binary64) :
    (binary op e (leaf x)).evalNumbers = op.apply e.evalNumbers (Word.ofNumber .signed x) := rfl

/-- **The word of an expression of arithmetic over safe integers**: `e.evalNumbers` is that of the
exact integer `z`, however large it is and however often the words on the way have wrapped. -/
theorem evalNumbers_eq_ofInt {e : Expr Binary64} (he : e.IsArithmetic)
    (hleaves : ∀ x ∈ e.leaves, x.IsSafeInteger) {z : Int}
    (hz : (e.map Binary64.integer).integer? = some z) : e.evalNumbers = Word.ofInt .signed z := by
  have hvalues : (e.map (Word.ofNumber .signed)).map Word.value = e.map Binary64.integer := by
    rw [map_map]
    exact map_congr fun x hx => Word.value_ofNumber_of_isSafeInteger (hleaves x hx)
  have htag : (e.map (Word.ofNumber .signed)).eval.tag = .signed := by
    refine tag_eval_of_leaves_signed ((isArithmetic_map _ e).mpr he).retagFree ?_
    rw [leaves_map, List.forall_mem_map]
    exact fun x _ => Word.tag_ofNumber .signed x
  rw [← hvalues] at hz
  rw [evalNumbers, eval_eq_ofInt hz, htag]

/-- **Words calculate exactly where numbers do.** An expression of arithmetic over numbers that are
integers up to `2^53` has an exact integer `z`. If that is at most `2^53` as well, the number of
`e.evalNumbers` is `z`, and the word is the same that any number which is `z` gives, no matter what
has wrapped on the way. -/
theorem exact_on_safe_integers {e : Expr Binary64} (he : e.IsArithmetic)
    (hleaves : ∀ x ∈ e.leaves, x.IsSafeInteger) :
    ∃ z : Int, (e.map Binary64.integer).integer? = some z ∧
      (|z| ≤ 2 ^ 53 →
        e.evalNumbers.toNumber.exponent < 2047 ∧
        e.evalNumbers.toNumber.toRat = z ∧
        ∀ y : Binary64, y.exponent < 2047 → y.toRat = z →
          e.evalNumbers = Word.ofNumber .signed y) := by
  obtain ⟨z, hz⟩ := exists_integer?_map he Binary64.integer
  refine ⟨z, hz, fun hsafe => ?_⟩
  have hword := evalNumbers_eq_ofInt he hleaves hz
  refine ⟨Word.exponent_toNumber_lt _, ?_, ?_⟩
  · rw [hword, Word.toRat_toNumber_ofInt hsafe]
  · intro y hfinite hy
    rw [hword, Word.ofNumber_eq_ofInt_of_abs_le hfinite hy hsafe]

/-- `Binary64.ofInt` and then `Binary64.integer` leave an expression over integers up to `2^53` as
it is. -/
theorem map_integer_map_ofInt {e : Expr Int} (he : ∀ n ∈ e.leaves, |n| ≤ 2 ^ 53) :
    (e.map Binary64.ofInt).map Binary64.integer = e := by
  have hback := map_congr (g := fun n => n) fun n hn => Binary64.integer_ofInt (he n hn)
  rw [map_map, hback, map_id]

/-- An expression over integers up to `2^53` is made one over safe integers by `Binary64.ofInt`. -/
theorem isSafeInteger_of_mem_leaves_map {e : Expr Int} (he : ∀ n ∈ e.leaves, |n| ≤ 2 ^ 53) :
    ∀ x ∈ (e.map Binary64.ofInt).leaves, x.IsSafeInteger := by
  rw [leaves_map, List.forall_mem_map]
  exact fun n hn => Binary64.isSafeInteger_ofInt (he n hn)

/-- `2^53` times `2^10` times three. The first product wraps to `-2^63`, where the second one
stays. -/
def wrappingProduct : Expr Int :=
  binary .mul (binary .mul (leaf (2 ^ 53)) (leaf (2 ^ 10))) (leaf 3)

/-- The exact product is three times `2^63`, and its word is `-2^63`. It is added to seven and
subtracted again, which leaves seven. -/
theorem exact_on_safe_integers_wrapped :
    Word.ofInt .signed (3 * 2 ^ 63) = Word.minValue ∧
    wrappingProduct.integer? = some (3 * 2 ^ 63) ∧
    ((binary .sub (binary .add (leaf 7) wrappingProduct) wrappingProduct).map
      Binary64.ofInt).evalNumbers.toNumber.toRat = 7 ∧
    ((binary .sub (binary .add (leaf 7) wrappingProduct) wrappingProduct).map
      Binary64.ofInt).evalNumbers = Word.ofNumber .signed (.ofInt 7) := by
  have hleaves : ∀ n ∈ (binary .sub (binary .add (leaf 7) wrappingProduct) wrappingProduct).leaves,
      |n| ≤ 2 ^ 53 := by decide
  obtain ⟨z, hz, hexact⟩ := exact_on_safe_integers
    (e := (binary .sub (binary .add (leaf 7) wrappingProduct) wrappingProduct).map Binary64.ofInt)
    (by simp [IsArithmetic, wrappingProduct]) (isSafeInteger_of_mem_leaves_map hleaves)
  rw [map_integer_map_ofInt hleaves] at hz
  obtain rfl : 7 = z := Option.some.inj hz
  obtain ⟨-, hnumber, hword⟩ := hexact (by decide)
  have hseven : |(7 : Int)| ≤ 2 ^ 53 := by decide
  have hsafe := Binary64.isSafeInteger_ofInt hseven
  refine ⟨by decide, by decide, hnumber, hword _ hsafe.finite ?_⟩
  rw [hsafe.toRat_eq, Binary64.integer_ofInt hseven]

end Expr

end TaggedWord
