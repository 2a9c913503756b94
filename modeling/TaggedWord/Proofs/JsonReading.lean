import TaggedWord.Proofs.JsonDocuments
import TaggedWord.Proofs.RoundTrip

/-! # Words and lists of words through JSON

A word is written as its decimal text, which needs no escapes (`isPlainText_decimal`), and a text is
taken for a signed word (`ofDatum_decimal`). So whatever lawful library a word is written and read
with, it keeps its pattern and loses its tag, and with the tag an unsigned word of `2^63` or more
loses its value (`written_words_read_back`).

* **`readWord_writeWord`** — one word through a library of `LawfulTexts`.
* **`readWords_writeWords`** — a list of words through a library of `LawfulLists`. -/

namespace TaggedWord.JsonLibrary

/-! ## Decimal texts -/

/-- `w.decimal` needs no escapes: it is made of digits and minus signs. -/
theorem isPlainText_decimal (w : Word) : IsPlainText w.decimal := by
  intro c hc
  rw [Word.decimal, String.toList_ofList] at hc
  rcases List.mem_append.mp hc with hc | hc
  · rw [Word.sign] at hc
    split at hc
    · rw [List.mem_singleton.mp hc]
      exact ⟨by decide, by decide, by decide⟩
    · cases hc
  · have hbounds := toNat_bounds_of_isDigit (Nat.isDigit_of_mem_toDigits (by decide) (by decide) hc)
    simp only [Char.reduceToNat] at hbounds
    refine ⟨?_, ?_, by omega⟩
    · rintro rfl
      exact absurd hbounds.1 (by decide)
    · rintro rfl
      exact absurd hbounds.2 (by decide)

/-- `Word.parseD` reads `w.decimal` as the signed word of the pattern of `w`. -/
theorem parseD_decimal (w : Word) : Word.parseD w.decimal = w.toSigned := by
  rw [Word.parseD, Word.parse?_decimal, Option.getD_some, Word.toSigned]

/-- `Word.ofDatum` takes the text `w.decimal` for the signed word of the pattern of `w`. -/
theorem ofDatum_decimal (w : Word) :
    Word.ofDatum (.text w.decimal) = .ok (Word.parseD w.decimal) := by
  rw [parseD_decimal, Word.ofDatum, Word.ofText, Word.parse?_decimal]
  rfl

/-! ## Words and lists of words -/

variable {ε : Type} {lib : JsonLibrary ε}

/-- `lib.writeWord w` is the decimal text of `w` between quotes. -/
theorem writeWord_eq (h : lib.LawfulTexts) (w : Word) : lib.writeWord w = quoted w.decimal :=
  h.writeText_eq _ (isPlainText_decimal w)

/-- **A word that is written and read back** by `lib` is `w.toSigned`, the signed word of its
pattern. -/
theorem readWord_writeWord (h : lib.LawfulTexts) (w : Word) :
    lib.readWord (lib.writeWord w) = .ok w.toSigned := by
  rw [writeWord_eq h, readWord,
    h.readValue_quoted _ _ _ (isPlainText_decimal w) (ofDatum_decimal w), parseD_decimal]

/-- `lib.writeWords ws` has the decimal texts of `ws` between quotes, with commas between them, in
square brackets. -/
theorem writeWords_eq (h : lib.LawfulLists) (ws : List Word) :
    lib.writeWords ws = enclosed "[" "]" (ws.map fun w => quoted w.decimal) := by
  rw [writeWords, h.writeList_eq]
  congr 2
  funext w
  exact writeWord_eq h.toLawfulTexts w

/-- **A list of words that is written and read back** by `lib` has `toSigned` of each of its
words. -/
theorem readWords_writeWords (h : lib.LawfulLists) (ws : List Word) :
    lib.readWords (lib.writeWords ws) = .ok (ws.map Word.toSigned) := by
  have hread := h.readList_enclosed Word.ofDatum Word.parseD (ws.map Word.decimal) <| by
    intro s hs
    obtain ⟨w, -, rfl⟩ := List.mem_map.mp hs
    exact ⟨isPlainText_decimal w, ofDatum_decimal w⟩
  rw [List.map_map, List.map_map] at hread
  rw [writeWords_eq h, readWords]
  refine hread.trans (congrArg Except.ok (List.map_congr_left fun w _ => ?_))
  exact parseD_decimal w

/-- **Words and lists of words through JSON.** With a lawful library `lib.writeWord w` is
`w.decimal` between quotes, and `lib.writeWords ws` has these with commas between them in brackets.
A word that `lib.readWord` reads back is the signed word of its pattern, and so is each element that
`lib.readWords` reads back of a list, which keeps its length. An element equals the one it was
written from if and only if that one is signed or has a clear top bit; otherwise it denotes `2^64`
less. What was read once stays as it is when it is written and read again. -/
theorem written_words_read_back {ε : Type} (lib : JsonLibrary ε) (h : lib.LawfulLists) :
    (∀ w : Word, lib.writeWord w = "\"" ++ w.decimal ++ "\"" ∧
      lib.readWord (lib.writeWord w) = .ok w.toSigned ∧
      lib.readWord (lib.writeWord w.toSigned) = .ok w.toSigned) ∧
    ∀ ws : List Word,
      lib.writeWords ws
        = "[" ++ ",".intercalate (ws.map fun w => "\"" ++ w.decimal ++ "\"") ++ "]" ∧
      ∃ vs : List Word, lib.readWords (lib.writeWords ws) = .ok vs ∧
        vs.length = ws.length ∧
        (∀ (i : Nat) (hv : i < vs.length) (hw : i < ws.length),
          vs[i].bits = ws[i].bits ∧ vs[i].tag = .signed ∧
          (vs[i].eqv ws[i] = true ↔ ws[i].tag = .signed ∨ ws[i].topBit = false) ∧
          vs[i].value = if ws[i].tag = .signed ∨ ws[i].topBit = false then ws[i].value
            else ws[i].value - 2 ^ 64) ∧
        lib.readWords (lib.writeWords vs) = .ok vs := by
  constructor
  · intro w
    exact ⟨writeWord_eq h.toLawfulTexts w, readWord_writeWord h.toLawfulTexts w,
      readWord_writeWord h.toLawfulTexts w.toSigned⟩
  · intro ws
    refine ⟨writeWords_eq h ws, ws.map Word.toSigned, readWords_writeWords h ws,
      List.length_map _, fun i hv hw => ?_, ?_⟩
    · rw [List.getElem_map]
      exact ⟨rfl, rfl, Word.toSigned_eqv_iff ws[i], Word.value_toSigned ws[i]⟩
    · -- a signed word is its own signed reading
      rw [readWords_writeWords h, List.map_map]
      rfl

/-- With `JsonText.library`, which is lawful, minus one and the greatest unsigned word share their
pattern: the second element of this list comes back equal to the first one, and no longer to
itself. -/
theorem greatest_unsigned_read_back :
    JsonText.library.LawfulLists ∧
    JsonText.library.writeWords [⟨0xFFFFFFFFFFFFFFFF, .signed⟩, Word.maxUnsignedValue]
      = "[\"-1\",\"18446744073709551615\"]" ∧
    ∃ vs : List Word,
      JsonText.library.readWords (JsonText.library.writeWords
        [⟨0xFFFFFFFFFFFFFFFF, .signed⟩, Word.maxUnsignedValue]) = .ok vs ∧
      ∃ h : 1 < vs.length, vs[1].eqv Word.maxUnsignedValue = false ∧ vs[1].value = -1 := by
  obtain ⟨hwritten, vs, hread, hlength, helements, -⟩ :=
    (written_words_read_back JsonText.library JsonText.lawfulLists_library).2
      [⟨0xFFFFFFFFFFFFFFFF, .signed⟩, Word.maxUnsignedValue]
  have h : 1 < vs.length := by rw [hlength]; decide
  obtain ⟨-, -, heqv, hvalue⟩ := helements 1 h (by decide)
  refine ⟨JsonText.lawfulLists_library, ?_, vs, hread, h, ?_, hvalue⟩
  · rw [hwritten]
    decide
  · rw [← Bool.not_eq_true]
    exact fun hcontra => absurd (heqv.mp hcontra) (by decide)

end TaggedWord.JsonLibrary
