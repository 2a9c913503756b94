import TaggedWord.Proofs.Expression
import TaggedWord.Proofs.Wrapping

/-! # Tags and exact values of expressions

An operation is tagged like its first operand, and the product alone can lose that tag. So the tag
of an expression is settled on the way down its first operands (`tag_eval_eq_unsigned_iff`), and it
tells the range in which the value lies. Sums, differences, negations and products have a meaning in
the integers, and the value is the representative of that integer in the range, however often the
words on the way have wrapped (`tag_and_value_eval`).

* **`Expr.leftmost`**, **`Expr.leaves`** — the operand that an expression is built on, and all of
  them.
* **`Expr.spineProducts`**, **`Expr.products`** — the products on the way to the leftmost operand,
  and all of them.
* **`Expr.integer?`** — the integer of an expression over integers, where nothing wraps. -/

namespace TaggedWord

/-! ## Shape of an expression -/

namespace Expr

variable {α : Type}

/-- **The leftmost operand**: the first operand of the first operand, and so on. -/
def leftmost : Expr α → α
  | leaf a => a
  | unary _ e => e.leftmost
  | binary _ e _ => e.leftmost

/-- The operands of an expression, from the left. -/
def leaves : Expr α → List α
  | leaf a => [a]
  | unary _ e => e.leaves
  | binary _ e f => e.leaves ++ f.leaves

/-- **The products on the way to the leftmost operand**, as pairs of factors. -/
def spineProducts : Expr α → List (Expr α × Expr α)
  | leaf _ => []
  | unary _ e => e.spineProducts
  | binary op e f => (if op = .mul then [(e, f)] else []) ++ e.spineProducts

/-- All products in an expression, as pairs of factors. -/
def products : Expr α → List (Expr α × Expr α)
  | leaf _ => []
  | unary _ e => e.products
  | binary op e f => (if op = .mul then [(e, f)] else []) ++ (e.products ++ f.products)

/-- **An expression without changes of reading.** -/
def RetagFree : Expr α → Prop
  | leaf _ => True
  | unary op e => (op = .neg ∨ op = .not) ∧ e.RetagFree
  | binary _ e f => e.RetagFree ∧ f.RetagFree

/-- `e.leftmost` is one of `e.leaves`. -/
theorem leftmost_mem_leaves (e : Expr α) : e.leftmost ∈ e.leaves := by
  induction e with
  | leaf a => exact List.mem_singleton_self a
  | unary op e ih => exact ih
  | binary op e f ihe ihf => exact List.mem_append_left _ ihe

/-- The `products` of `binary op e f`: itself, if it is one, and those of both operands. -/
theorem forall_mem_products_binary {op : BinaryOp} {e f : Expr α}
    {P : Expr α × Expr α → Prop} :
    (∀ p ∈ (binary op e f).products, P p) ↔
      (op = .mul → P (e, f)) ∧ (∀ p ∈ e.products, P p) ∧ ∀ p ∈ f.products, P p := by
  rw [products, List.forall_mem_append, List.forall_mem_append]
  split <;> simp_all

/-- The `spineProducts` of `binary op e f`: itself, if it is a product, and those of the first
operand. -/
theorem forall_mem_spineProducts_binary {op : BinaryOp} {e f : Expr α}
    {P : Expr α × Expr α → Prop} :
    (∀ p ∈ (binary op e f).spineProducts, P p) ↔
      (op = .mul → P (e, f)) ∧ ∀ p ∈ e.spineProducts, P p := by
  rw [spineProducts, List.forall_mem_append]
  split <;> simp_all

end Expr

/-! ## Tags -/

/-- `neg` and `not` keep the tag. -/
theorem UnaryOp.tag_apply {op : UnaryOp} (h : op = .neg ∨ op = .not) (w : Word) :
    (op.apply w).tag = w.tag := by
  rcases h with rfl | rfl
  · exact Word.tag_neg w
  · rfl

/-- **Every operation keeps the tag of its first operand**, a product only if neither factor is zero
and the second one is not `minValue`. -/
theorem BinaryOp.tag_apply_eq_unsigned_iff (op : BinaryOp) (a b : Word) :
    (op.apply a b).tag = .unsigned ↔
      a.tag = .unsigned ∧
        (op = .mul → a.isZero = false ∧ b.isZero = false ∧ b ≠ Word.minValue) := by
  cases op with
  | mul =>
    rw [apply, Word.tag_mul]
    split
    · rename_i h
      exact ⟨fun htag => ⟨htag, fun _ => h⟩, And.left⟩
    · rename_i h
      exact iff_of_false (by decide) fun h' => h (h'.2 rfl)
  | add => simp [apply]
  | sub => simp [apply]
  | and => simp [apply]
  | or => simp [apply]
  | shiftLeft => simp [apply]

namespace Expr

/-- **The tag of an expression**: `e.eval` is unsigned if `e.leftmost` is and none of the
`spineProducts` makes a signed word of it. -/
theorem tag_eval_eq_unsigned_iff {e : Expr Word} (he : e.RetagFree) :
    e.eval.tag = .unsigned ↔
      e.leftmost.tag = .unsigned ∧
        ∀ p ∈ e.spineProducts, p.1.eval.isZero = false ∧ p.2.eval.isZero = false ∧
          p.2.eval ≠ Word.minValue := by
  induction e with
  | leaf w => simp [eval, leftmost, spineProducts]
  | unary op e ih =>
    rw [eval, UnaryOp.tag_apply he.1, ih he.2, leftmost, spineProducts]
  | binary op e f ihe ihf =>
    rw [eval, BinaryOp.tag_apply_eq_unsigned_iff, ihe he.1, leftmost,
      forall_mem_spineProducts_binary, and_assoc, and_comm (b := op = .mul → _)]

/-- `e.eval` is signed if all `leaves` are. -/
theorem tag_eval_of_leaves_signed {e : Expr Word} (he : e.RetagFree)
    (hleaves : ∀ w ∈ e.leaves, w.tag = .signed) : e.eval.tag = .signed := by
  cases htag : e.eval.tag with
  | signed => rfl
  | unsigned =>
    have hleft := ((tag_eval_eq_unsigned_iff he).mp htag).1
    rw [hleaves _ e.leftmost_mem_leaves] at hleft
    cases hleft

/-- `e.eval` is unsigned if all `leaves` are and none of the `products` has the factor zero. -/
theorem tag_eval_of_leaves_unsigned {e : Expr Word} (he : e.RetagFree)
    (hleaves : ∀ w ∈ e.leaves, w.tag = .unsigned)
    (hproducts : ∀ p ∈ e.products, p.1.eval.isZero = false ∧ p.2.eval.isZero = false) :
    e.eval.tag = .unsigned := by
  induction e with
  | leaf w => exact hleaves w (List.mem_singleton_self w)
  | unary op e ih =>
    rw [eval, UnaryOp.tag_apply he.1]
    exact ih he.2 hleaves hproducts
  | binary op e f ihe ihf =>
    obtain ⟨hleavese, hleavesf⟩ := List.forall_mem_append.mp hleaves
    obtain ⟨hself, hproductse, hproductsf⟩ := forall_mem_products_binary.mp hproducts
    have htage := ihe he.1 hleavese hproductse
    have htagf := ihf he.2 hleavesf hproductsf
    -- the second factor is unsigned too, so it is not `-2^63`
    have hmin : f.eval ≠ Word.minValue := fun h => by rw [h] at htagf; cases htagf
    exact (BinaryOp.tag_apply_eq_unsigned_iff op _ _).mpr
      ⟨htage, fun hop => ⟨(hself hop).1, (hself hop).2, hmin⟩⟩

end Expr

/-! ## Exact values -/

/-- **The expressions of arithmetic**: sums, differences, products and negations. -/
def Expr.IsArithmetic {α : Type} : Expr α → Prop
  | leaf _ => True
  | unary op e => op = .neg ∧ e.IsArithmetic
  | binary op e f => (op = .add ∨ op = .sub ∨ op = .mul) ∧ e.IsArithmetic ∧ f.IsArithmetic

/-- The operation on integers, if it is one of arithmetic. -/
def UnaryOp.integer? : UnaryOp → Option (Int → Int)
  | neg => some fun a => -a
  | not | toSigned | toUnsigned => none

/-- The operation on two integers, if it is one of arithmetic. -/
def BinaryOp.integer? : BinaryOp → Option (Int → Int → Int)
  | add => some fun a b => a + b
  | sub => some fun a b => a - b
  | mul => some fun a b => a * b
  | and | or | shiftLeft => none

/-- **The integer of an expression over integers**, if it is one of arithmetic. -/
def Expr.integer? : Expr Int → Option Int
  | leaf a => some a
  | unary op e => do
    let f ← op.integer?
    let a ← e.integer?
    some (f a)
  | binary op e g => do
    let f ← op.integer?
    let a ← e.integer?
    let b ← g.integer?
    some (f a b)

/-- `integer?` is defined on an expression of arithmetic, whatever integers its operands stand
for. -/
theorem Expr.exists_integer?_map {α : Type} {e : Expr α} (h : e.IsArithmetic) (value : α → Int) :
    ∃ z, (e.map value).integer? = some z := by
  induction e with
  | leaf a => exact ⟨value a, rfl⟩
  | unary op e ih =>
    obtain ⟨rfl, he⟩ := h
    obtain ⟨a, ha⟩ := ih he
    exact ⟨-a, by rw [map, integer?, ha]; rfl⟩
  | binary op e f ihe ihf =>
    obtain ⟨hop, he, hf⟩ := h
    obtain ⟨a, ha⟩ := ihe he
    obtain ⟨b, hb⟩ := ihf hf
    rcases hop with rfl | rfl | rfl
    · exact ⟨a + b, by rw [map, integer?, ha, hb]; rfl⟩
    · exact ⟨a - b, by rw [map, integer?, ha, hb]; rfl⟩
    · exact ⟨a * b, by rw [map, integer?, ha, hb]; rfl⟩

/-- `op.apply` on the word of an integer follows `op.integer?` on the integer. -/
theorem UnaryOp.bits_apply_of_integer? {op : UnaryOp} {f : Int → Int} (hop : op.integer? = some f)
    {w : Word} {a : Int} (ha : w.bits = BitVec.ofInt 64 a) :
    (op.apply w).bits = BitVec.ofInt 64 (f a) := by
  cases op with
  | neg =>
    cases hop
    rw [apply, Word.bits_neg, ha, BitVec.ofInt_neg]
  | not | toSigned | toUnsigned => cases hop

/-- `op.apply` on the words of two integers follows `op.integer?` on the integers. -/
theorem BinaryOp.bits_apply_of_integer? {op : BinaryOp} {f : Int → Int → Int}
    (hop : op.integer? = some f) {v w : Word} {a b : Int} (ha : v.bits = BitVec.ofInt 64 a)
    (hb : w.bits = BitVec.ofInt 64 b) : (op.apply v w).bits = BitVec.ofInt 64 (f a b) := by
  cases op with
  | add =>
    cases hop
    rw [apply, Word.bits_add, ha, hb, BitVec.ofInt_add]
  | sub =>
    cases hop
    rw [apply, Word.bits_sub, ha, hb, BitVec.sub_eq_add_neg, ← BitVec.ofInt_neg,
      ← BitVec.ofInt_add, ← Int.sub_eq_add_neg]
  | mul =>
    cases hop
    rw [apply, Word.bits_mul, ha, hb, BitVec.ofInt_mul]
  | and | or | shiftLeft => cases hop

namespace Expr

/-- **The pattern of an expression of arithmetic is that of its exact integer** `z`, whatever the
tags and however often the words on the way have wrapped. -/
theorem bits_eval_of_integer? {e : Expr Word} {z : Int} (h : (e.map Word.value).integer? = some z) :
    e.eval.bits = BitVec.ofInt 64 z := by
  induction e generalizing z with
  | leaf w =>
    cases h
    rw [eval, ← Word.bits_ofInt w.tag, Word.ofInt_value]
  | unary op e ih =>
    obtain ⟨f, hop, h⟩ := Option.bind_eq_some_iff.mp h
    obtain ⟨a, ha, h⟩ := Option.bind_eq_some_iff.mp h
    cases h
    exact UnaryOp.bits_apply_of_integer? hop (ih ha)
  | binary op e g ihe ihg =>
    obtain ⟨f, hop, h⟩ := Option.bind_eq_some_iff.mp h
    obtain ⟨a, ha, h⟩ := Option.bind_eq_some_iff.mp h
    obtain ⟨b, hb, h⟩ := Option.bind_eq_some_iff.mp h
    cases h
    exact BinaryOp.bits_apply_of_integer? hop (ihe ha) (ihg hb)

/-- `e.eval` is the word of its exact integer `z` under its own tag. -/
theorem eval_eq_ofInt {e : Expr Word} {z : Int} (h : (e.map Word.value).integer? = some z) :
    e.eval = Word.ofInt e.eval.tag z :=
  Word.ext (bits_eval_of_integer? h) rfl

/-- **Tags and values of whole expressions.** Without changes of reading `e.eval` is unsigned if and
only if `e.leftmost` is and each of the `spineProducts` has factors other than zero and a second
factor other than `minValue`. So signed `leaves` make a signed word, and for an expression of
arithmetic this word denotes the representative of the exact integer in `[-2^63, 2^63)`, which is
the integer itself if it lies there; unsigned `leaves` make an unsigned word if no factor is zero,
and for an expression of arithmetic it denotes the exact integer modulo `2 ^ 64`. -/
theorem tag_and_value_eval :
    (∀ e : Expr Word, e.RetagFree →
      (e.eval.tag = .unsigned ↔
        e.leftmost.tag = .unsigned ∧
          ∀ p ∈ e.spineProducts, p.1.eval.isZero = false ∧ p.2.eval.isZero = false ∧
            p.2.eval ≠ Word.minValue)) ∧
    (∀ e : Expr Word, e.RetagFree → (∀ w ∈ e.leaves, w.tag = .signed) →
      e.eval.tag = .signed ∧
        (e.IsArithmetic → ∃ z, (e.map Word.value).integer? = some z ∧
          e.eval.value = z.bmod (2 ^ 64) ∧ (Signedness.signed.InRange z → e.eval.value = z))) ∧
    (∀ e : Expr Word, e.RetagFree → (∀ w ∈ e.leaves, w.tag = .unsigned) →
      (∀ p ∈ e.products, p.1.eval.isZero = false ∧ p.2.eval.isZero = false) →
      e.eval.tag = .unsigned ∧
        (e.IsArithmetic → ∃ z, (e.map Word.value).integer? = some z ∧
          e.eval.value = z % 2 ^ 64)) := by
  refine ⟨fun e he => tag_eval_eq_unsigned_iff he, fun e he hleaves => ?_,
    fun e he hleaves hproducts => ?_⟩
  · have htag := tag_eval_of_leaves_signed he hleaves
    refine ⟨htag, fun harith => ?_⟩
    obtain ⟨z, hz⟩ := exists_integer?_map harith Word.value
    rw [eval_eq_ofInt hz, htag]
    exact ⟨z, hz, Word.value_ofInt_signed z, fun hrange => Word.value_ofInt hrange⟩
  · have htag := tag_eval_of_leaves_unsigned he hleaves hproducts
    refine ⟨htag, fun harith => ?_⟩
    obtain ⟨z, hz⟩ := exists_integer?_map harith Word.value
    rw [eval_eq_ofInt hz, htag]
    exact ⟨z, hz, Word.value_ofInt_unsigned z⟩

/-- Three expressions that meet every hypothesis. The product of the unsigned three with `-2^63` is
signed, and so is the sum built on it, though its leftmost operand is unsigned. Twice `2^63 - 1`
wraps on the way back to `2^63 - 1` and leaves no trace. The unsigned `2^63` as a second factor
keeps the tag, and five minus six times `2^63` is five modulo `2^64`. -/
theorem tag_and_value_eval_wrapped :
    ((binary .add (binary .mul (leaf ⟨3, .unsigned⟩) (leaf Word.minValue))
        (leaf ⟨5, .unsigned⟩)).eval.tag ≠ .unsigned) ∧
    (binary .sub (binary .mul (leaf Word.maxValue) (leaf ⟨2, .signed⟩))
        (leaf Word.maxValue)).eval.value = 2 ^ 63 - 1 ∧
    (binary .sub (leaf ⟨5, .unsigned⟩)
        (binary .mul (leaf ⟨6, .unsigned⟩) (leaf ⟨0x8000000000000000, .unsigned⟩))).eval.value
      = (5 - 6 * 2 ^ 63) % 2 ^ 64 := by
  obtain ⟨htag, hsigned, hunsigned⟩ := tag_and_value_eval
  refine ⟨?_, ?_, ?_⟩
  · rw [Ne, htag _ (by simp [RetagFree])]
    rintro ⟨-, h⟩
    exact (h _ (List.mem_singleton_self _)).2.2 rfl
  · obtain ⟨-, h⟩ := hsigned (binary .sub (binary .mul (leaf Word.maxValue) (leaf ⟨2, .signed⟩))
      (leaf Word.maxValue)) (by simp [RetagFree]) (by decide)
    obtain ⟨z, hz, -, hvalue⟩ := h (by simp [IsArithmetic])
    cases hz
    exact hvalue (by decide)
  · obtain ⟨-, h⟩ := hunsigned (binary .sub (leaf ⟨5, .unsigned⟩)
      (binary .mul (leaf ⟨6, .unsigned⟩) (leaf ⟨0x8000000000000000, .unsigned⟩)))
      (by simp [RetagFree]) (by decide) (by simp only [products]; decide)
    obtain ⟨z, hz, hvalue⟩ := h (by simp [IsArithmetic])
    cases hz
    exact hvalue

end Expr

end TaggedWord
