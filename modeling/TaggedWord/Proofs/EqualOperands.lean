import TaggedWord.Proofs.ExpressionTags
import TaggedWord.Proofs.Truncation

/-! # Equal operands are interchangeable

Words that denote the same number can have different tags, and host values are equal across the two
zeros and across tags. Where such an operand stands on the right, nothing tells it from an equal
one: not the pattern of an answer, and not its tag (`results_eq_of_eqv`). On the left it gives its
tag to the answer, so there only the patterns agree.

* **`BinaryOp.bits_apply_congr`** — the pattern of an answer depends on patterns alone.
* **`BinaryOp.apply_congr_right`** — equal words on the right give one answer.
* **`Value.toWord?_rel`** — equal values stand for equal words. -/

namespace TaggedWord

/-! ## Words -/

/-- `residueOf` is injective: a pattern is its integer modulo `2 ^ 64`. -/
theorem residueOf_injective : Function.Injective residueOf := by
  intro x y h
  have hval := congrArg ZMod.val h
  rw [val_residueOf, val_residueOf] at hval
  exact BitVec.eq_of_toNat_eq hval

/-- Two tags are equal if both are `.unsigned` or neither is. -/
theorem Signedness.eq_of_unsigned_iff {s t : Signedness} (h : s = .unsigned ↔ t = .unsigned) :
    s = t := by
  cases s with
  | unsigned => exact (h.mp rfl).symm
  | signed =>
    cases t with
    | signed => rfl
    | unsigned => exact h.mpr rfl

/-- The pattern of `op.apply a` depends on the pattern of `a` alone. -/
theorem UnaryOp.bits_apply_congr (op : UnaryOp) {a b : Word} (h : a.bits = b.bits) :
    (op.apply a).bits = (op.apply b).bits := by
  apply residueOf_injective
  rw [residue_bits_apply, residue_bits_apply, h]

/-- **The pattern of an answer depends on patterns alone**: that of `op.apply a b` on those of `a`
and `b`. -/
theorem BinaryOp.bits_apply_congr (op : BinaryOp) {a a' b b' : Word} (ha : a.bits = a'.bits)
    (hb : b.bits = b'.bits) : (op.apply a b).bits = (op.apply a' b').bits := by
  apply residueOf_injective
  rw [residue_bits_apply, residue_bits_apply, ha, hb]

namespace Word

/-- `isZero` does not tell equal words apart. -/
theorem isZero_congr {a b : Word} (h : a.eqv b = true) : a.isZero = b.isZero := by
  rw [isZero, isZero, bits_eq_of_eqv h]

/-- Equal words are both `minValue` or neither: no unsigned word has its value. -/
theorem eq_minValue_congr {a b : Word} (h : a.eqv b = true) : a = minValue ↔ b = minValue := by
  rw [← eqv_minValue_iff, ← eqv_minValue_iff, eqv_iff_value_eq, eqv_iff_value_eq,
    (eqv_iff_value_eq a b).mp h]

/-- `w.compare` does not tell equal words apart. -/
theorem compare_congr_right {a b : Word} (h : a.eqv b = true) (w : Word) :
    w.compare a = w.compare b := by
  rw [compare, compare, (eqv_iff_value_eq a b).mp h]

/-- `w.eqv` does not tell equal words apart. -/
theorem eqv_congr_right {a b : Word} (h : a.eqv b = true) (w : Word) : w.eqv a = w.eqv b := by
  rw [Bool.eq_iff_iff, eqv_iff_value_eq, eqv_iff_value_eq, (eqv_iff_value_eq a b).mp h]

/-- `w.eqv w` holds for every word. -/
theorem eqv_refl (w : Word) : w.eqv w = true := (eqv_iff_value_eq w w).mpr rfl

end Word

/-- **Equal words on the right give one answer**: `op.apply w a = op.apply w b`, pattern and tag. -/
theorem BinaryOp.apply_congr_right (op : BinaryOp) (w : Word) {a b : Word} (h : a.eqv b = true) :
    op.apply w a = op.apply w b := by
  ext1
  · exact op.bits_apply_congr rfl (Word.bits_eq_of_eqv h)
  · -- a product looks for zero and `-2^63` on its right, and equal words are both or neither
    have htag : (op.apply w a).tag = .unsigned ↔ (op.apply w b).tag = .unsigned := by
      rw [tag_apply_eq_unsigned_iff, tag_apply_eq_unsigned_iff, Word.isZero_congr h, Ne, Ne,
        Word.eq_minValue_congr h]
    exact Signedness.eq_of_unsigned_iff htag

/-! ## Host values -/

/-- `x.eqv y` only for numbers with `x.toRat = y.toRat`, neither of them NaN. -/
theorem Binary64.toRat_eq_of_eqv {x y : Binary64} (h : x.eqv y = true) :
    x.isNaN = false ∧ y.isNaN = false ∧ x.toRat = y.toRat := by
  simp only [eqv, Bool.and_eq_true, Bool.not_eq_true', beq_iff_eq] at h
  obtain ⟨⟨hx, hy⟩, hquanta⟩ := h
  refine ⟨hx, hy, le_antisymm ?_ ?_⟩
  · exact (quanta_le_iff x y).1 hquanta.le
  · exact (quanta_le_iff y x).1 hquanta.ge

/-- `ofNumber tag` does not tell equal numbers apart, the two zeros among them. -/
theorem Word.ofNumber_congr (tag : Signedness) {x y : Binary64} (h : x.eqv y = true) :
    ofNumber tag x = ofNumber tag y := by
  obtain ⟨hx, hy, hrat⟩ := Binary64.toRat_eq_of_eqv h
  rw [ofNumber_eq_ofInt_clamp tag hx, ofNumber_eq_ofInt_clamp tag hy, hrat]

namespace Value

/-- **Equal values**: `v.eqv w` holds for one value twice, for two equal numbers and for two equal
words only. -/
theorem eqv_cases {v w : Value} (h : v.eqv w = true) :
    v = w ∨ (∃ x y, v = number x ∧ w = number y ∧ x.eqv y = true) ∨
      ∃ a b, v = word a ∧ w = word b ∧ a.eqv b = true := by
  fun_cases eqv v w with
  | case1 => exact .inl rfl
  | case2 => exact .inl rfl
  | case3 b c => exact .inl (by rw [eq_of_beq h])
  | case4 x y => exact .inr (.inl ⟨x, y, rfl, rfl, h⟩)
  | case5 s t => exact .inl (by rw [eq_of_beq h])
  | case6 a b => exact .inr (.inr ⟨a, b, rfl, rfl, h⟩)
  | case7 => simp [eqv] at h

/-- **Equal values stand for equal words** under `toWord? tag`, or both for none. -/
theorem toWord?_rel (tag : Signedness) {v w : Value} (h : v.eqv w = true) :
    Option.Rel (fun a b => a.eqv b = true) (v.toWord? tag) (w.toWord? tag) := by
  rcases eqv_cases h with rfl | ⟨x, y, rfl, rfl, hxy⟩ | ⟨a, b, rfl, rfl, hab⟩
  · cases v.toWord? tag with
    | none => exact .none
    | some a => exact .some a.eqv_refl
  · rw [toWord?, toWord?, Word.ofNumber_congr tag hxy]
    exact .some (Word.eqv_refl _)
  · exact .some hab

end Value

/-! ## Masks -/

/-- **An operation with a host value as second operand**, the signed zero if the value stands for no
word. Bitwise operations take their masks this way. -/
def BinaryOp.applyValue (op : BinaryOp) (w : Word) (mask : Value) : Word :=
  match mask.toWord? .signed with
  | some m => op.apply w m
  | none => .zero

/-- `w.andValue mask` is `BinaryOp.and` with a host value as mask. -/
theorem Word.andValue_eq_applyValue (w : Word) (mask : Value) :
    w.andValue mask = BinaryOp.and.applyValue w mask := rfl

/-- `w.orValue mask` is `BinaryOp.or` with a host value as mask. -/
theorem Word.orValue_eq_applyValue (w : Word) (mask : Value) :
    w.orValue mask = BinaryOp.or.applyValue w mask := rfl

/-- **Equal masks give one answer**: `op.applyValue w v = op.applyValue w v'` for equal numbers,
texts and words. -/
theorem BinaryOp.applyValue_congr_right (op : BinaryOp) (w : Word) {v v' : Value}
    (h : v.eqv v' = true) : op.applyValue w v = op.applyValue w v' := by
  have hrel := Value.toWord?_rel .signed h
  rw [applyValue, applyValue]
  generalize v.toWord? .signed = m, v'.toWord? .signed = m' at hrel ⊢
  cases hrel with
  | none => rfl
  | some hm => exact op.apply_congr_right w hm

/-- The pattern of `op.applyValue a mask` depends on the pattern of `a` alone, whatever the mask. -/
theorem BinaryOp.bits_applyValue_congr (op : BinaryOp) {a b : Word} (h : a.bits = b.bits)
    (mask : Value) : (op.applyValue a mask).bits = (op.applyValue b mask).bits := by
  rw [applyValue, applyValue]
  cases mask.toWord? .signed with
  | none => rfl
  | some m => exact op.bits_apply_congr h rfl

namespace Word

/-! ## Interchange -/

/-- **Equal operands are interchangeable on the right.** For `x.eqv y` every `op.apply z x` is
`op.apply z y`, and so are `z.eqv` and `z.compare`. As first operand `x` and `y` give answers with
the same pattern in every operation, with words and with host values as masks. Two equal host values
stand for equal words under `toWord?` or both for none, and as masks they give the same answer. -/
theorem results_eq_of_eqv :
    (∀ x y : Word, x.eqv y = true →
      (∀ z : Word, (∀ op : BinaryOp, op.apply z x = op.apply z y) ∧
        z.eqv x = z.eqv y ∧ z.compare x = z.compare y) ∧
      (∀ op : UnaryOp, (op.apply x).bits = (op.apply y).bits) ∧
      (∀ (op : BinaryOp) (z : Word), (op.apply x z).bits = (op.apply y z).bits) ∧
      ∀ mask : Value, (x.andValue mask).bits = (y.andValue mask).bits ∧
        (x.orValue mask).bits = (y.orValue mask).bits) ∧
    ∀ v w : Value, v.eqv w = true →
      (∀ tag : Signedness, (v.toWord? tag = none ∧ w.toWord? tag = none) ∨
        ∃ a b, v.toWord? tag = some a ∧ w.toWord? tag = some b ∧ a.eqv b = true) ∧
      ∀ z : Word, z.andValue v = z.andValue w ∧ z.orValue v = z.orValue w := by
  constructor
  · intro x y h
    have hbits := bits_eq_of_eqv h
    refine ⟨?_, ?_, ?_, ?_⟩
    · intro z
      refine ⟨?_, eqv_congr_right h z, compare_congr_right h z⟩
      intro op
      exact op.apply_congr_right z h
    · intro op
      exact op.bits_apply_congr hbits
    · intro op z
      exact op.bits_apply_congr hbits rfl
    · intro mask
      rw [andValue_eq_applyValue, andValue_eq_applyValue, orValue_eq_applyValue,
        orValue_eq_applyValue]
      exact ⟨BinaryOp.and.bits_applyValue_congr hbits mask,
        BinaryOp.or.bits_applyValue_congr hbits mask⟩
  · intro v w h
    constructor
    · intro tag
      have hrel := Value.toWord?_rel tag h
      generalize v.toWord? tag = m, w.toWord? tag = m' at hrel
      cases hrel with
      | none => exact .inl ⟨rfl, rfl⟩
      | some hm => exact .inr ⟨_, _, rfl, rfl, hm⟩
    · intro z
      rw [andValue_eq_applyValue, andValue_eq_applyValue, orValue_eq_applyValue,
        orValue_eq_applyValue]
      exact ⟨BinaryOp.and.applyValue_congr_right z h, BinaryOp.or.applyValue_congr_right z h⟩

/-- The two words for five as factor of an unsigned word, and the two zeros as mask. -/
theorem results_eq_of_eqv_across_tags :
    ((⟨5, .signed⟩ : Word).eqv ⟨5, .unsigned⟩ = true ∧
      maxUnsignedValue.mul ⟨5, .signed⟩ = maxUnsignedValue.mul ⟨5, .unsigned⟩) ∧
    ((Value.number .zero).eqv (.number Binary64.zero.neg) = true ∧
      maxUnsignedValue.orValue (.number .zero)
        = maxUnsignedValue.orValue (.number Binary64.zero.neg)) := by
  have hword : (⟨5, .signed⟩ : Word).eqv ⟨5, .unsigned⟩ = true := by decide
  have hvalue : (Value.number .zero).eqv (.number Binary64.zero.neg) = true := by decide
  exact ⟨⟨hword, ((results_eq_of_eqv.1 _ _ hword).1 maxUnsignedValue).1 .mul⟩,
    hvalue, ((results_eq_of_eqv.2 _ _ hvalue).2 maxUnsignedValue).2⟩

end Word

end TaggedWord
