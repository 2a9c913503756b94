import TaggedWord.Proofs.RoundTrip
import Mathlib.Tactic.TFAE

/-! # Agreement of equality, order, hashing and text

Equality of words is decided on patterns and tags, the order on the numbers denoted, a hash table
sees sixteen bytes, and the decimal text is written under the tag. All four distinguish the same
words, namely those that denote different numbers (`eqv_tfae_and_order_laws`), over any mix of tags.

* **`hashBytes_inj`** — the bytes given to a hash function determine the value.
* **`decimal_inj`** — so does the decimal text. -/

namespace TaggedWord.Word

/-! ## Hashing -/

/-- Two patterns of 128 bits are equal if their sixteen bytes `extractLsb' (8 * i) 8` are. -/
theorem eq_of_bytes_eq {x y : BitVec 128}
    (h : ∀ i < 16, x.extractLsb' (8 * i) 8 = y.extractLsb' (8 * i) 8) : x = y := by
  apply BitVec.eq_of_getLsbD_eq
  intro j hj
  -- bit `j` is bit `j % 8` of byte `j / 8`
  have hbyte := congrArg (fun b => b.getLsbD (j % 8)) (h (j / 8) (by omega))
  have hlt : j % 8 < 8 := Nat.mod_lt j (by decide)
  simpa only [BitVec.getLsbD_extractLsb', hlt, decide_true, Bool.true_and, Nat.div_add_mod]
    using hbyte

/-- `w.value` keeps its place in 128 bits of two's complement. -/
theorem toInt_ofInt_value (w : Word) : (BitVec.ofInt 128 w.value).toInt = w.value := by
  obtain ⟨hlo, hhi⟩ := (inRange_value w).bounds
  apply BitVec.toInt_ofInt_eq_self (by decide)
  · show -2 ^ 127 ≤ w.value
    omega
  · show w.value < 2 ^ 127
    omega

/-- **The bytes given to a hash function determine the value**: `a.hashBytes = b.hashBytes` iff
`a.value = b.value`. -/
theorem hashBytes_inj {a b : Word} : a.hashBytes = b.hashBytes ↔ a.value = b.value := by
  constructor
  · intro h
    have hbytes := List.map_inj_left.mp h
    have hwide : BitVec.ofInt 128 a.value = BitVec.ofInt 128 b.value :=
      eq_of_bytes_eq fun i hi => hbytes i (List.mem_range.mpr hi)
    rw [← toInt_ofInt_value a, hwide, toInt_ofInt_value]
  · intro h
    rw [hashBytes, hashBytes, h]

/-! ## Text -/

/-- **The decimal text determines the value**: `a.decimal = b.decimal` iff `a.value = b.value`. -/
theorem decimal_inj {a b : Word} : a.decimal = b.decimal ↔ a.value = b.value := by
  rw [decimal_eq_text, decimal_eq_text, Numeral.text_injective.eq_iff]
  constructor
  · intro h
    rw [← Numeral.value_ofInt a.value, h, Numeral.value_ofInt]
  · intro h
    rw [h]

/-! ## Agreement -/

/-- **Equality, order, hashing and text agree.** For two words `a.eqv b`, `a.value = b.value`, the
answer `.eq` of both comparisons, equal `hashBytes` and equal `decimal` texts hold all at once or
not at all. The order is that of the numbers denoted, so `≤` is reflexive, antisymmetric up to
`eqv`, transitive and total, and `eqv` is an equivalence relation. -/
theorem eqv_tfae_and_order_laws :
    (∀ a b : Word, [a.eqv b = true, a.value = b.value, a.compare b = .eq, Ord.compare a b = .eq,
      a.hashBytes = b.hashBytes, a.decimal = b.decimal].TFAE) ∧
    (∀ a b : Word, (a.compare b = .lt ↔ a.value < b.value) ∧
      (a.compare b = .gt ↔ b.value < a.value) ∧ (a ≤ b ↔ a.value ≤ b.value)) ∧
    (∀ a : Word, a ≤ a) ∧
    (∀ a b : Word, a ≤ b → b ≤ a → a.eqv b = true) ∧
    (∀ a b c : Word, a ≤ b → b ≤ c → a ≤ c) ∧
    (∀ a b : Word, a ≤ b ∨ b ≤ a) ∧
    Equivalence fun a b : Word => a.eqv b = true := by
  refine ⟨fun a b => ?_, fun a b => ⟨compare_eq_lt_iff a b, compare_eq_gt_iff a b,
    le_iff_value_le a b⟩, ?_, ?_, ?_, ?_, ?_⟩
  · -- every notion is compared with equality of values
    tfae_have 1 ↔ 2 := eqv_iff_value_eq a b
    tfae_have 3 ↔ 2 := compare_eq_eq_iff a b
    tfae_have 4 ↔ 2 := compare_eq_eq_iff a b
    tfae_have 5 ↔ 2 := hashBytes_inj
    tfae_have 6 ↔ 2 := decimal_inj
    tfae_finish
  · intro a
    rw [le_iff_value_le]
  · intro a b hab hba
    rw [le_iff_value_le] at hab hba
    exact (eqv_iff_value_eq a b).mpr (Int.le_antisymm hab hba)
  · intro a b c hab hbc
    rw [le_iff_value_le] at hab hbc ⊢
    exact Int.le_trans hab hbc
  · intro a b
    rw [le_iff_value_le, le_iff_value_le]
    exact Int.le_total a.value b.value
  · simp only [eqv_iff_value_eq]
    exact ⟨fun _ => rfl, Eq.symm, Eq.trans⟩

/-- Words of both tags in a row: the signed and the unsigned seven are below each other and equal,
and `-1` is below the signed `2^63 - 1`, which is below the unsigned `2^63`. -/
theorem order_laws_mixed_tags :
    ((⟨7, .signed⟩ : Word) ≤ ⟨7, .unsigned⟩ ∧ (⟨7, .unsigned⟩ : Word) ≤ ⟨7, .signed⟩ ∧
      (⟨7, .signed⟩ : Word).eqv ⟨7, .unsigned⟩ = true) ∧
    ((⟨0xFFFFFFFFFFFFFFFF, .signed⟩ : Word) ≤ maxValue ∧
      maxValue ≤ ⟨0x8000000000000000, .unsigned⟩ ∧
      (⟨0xFFFFFFFFFFFFFFFF, .signed⟩ : Word) ≤ ⟨0x8000000000000000, .unsigned⟩) := by
  obtain ⟨-, -, -, hantisymm, htrans, -, -⟩ := eqv_tfae_and_order_laws
  have h₁ : (⟨7, .signed⟩ : Word) ≤ ⟨7, .unsigned⟩ := by decide
  have h₂ : (⟨7, .unsigned⟩ : Word) ≤ ⟨7, .signed⟩ := by decide
  have h₃ : (⟨0xFFFFFFFFFFFFFFFF, .signed⟩ : Word) ≤ maxValue := by decide
  have h₄ : maxValue ≤ ⟨0x8000000000000000, .unsigned⟩ := by decide
  exact ⟨⟨h₁, h₂, hantisymm _ _ h₁ h₂⟩, h₃, h₄, htrans _ _ _ h₃ h₄⟩

end TaggedWord.Word
