import TaggedWord.Text.Quoted
import Mathlib.Data.List.DropRight
import Mathlib.Logic.Function.Basic

/-! # Quoted text and what it quotes

What is quoted can be read back, whichever characters are written by code point: every written form
of a character is taken in as this character, and what follows it does not matter
(`decodeFrom_encodeChar`). The reader need not know the characters that were hidden, so two texts
with the same written form are the same even if different characters were hidden in them.

* **`Quoted.decode_encode`** — reading undoes writing.
* **`quotedText?`** — the text quoted in a message; `quotedText?_frame` reads it back from a frame,
  in which no other quote stands.
* **`IsFrame.comp`** — a frame within a frame is one. -/

namespace TaggedWord.Text

namespace Quoted

/-! ## Letters -/

/-- `ofLetter?` reads a letter as the character that `letter?` writes it for. -/
theorem ofLetter?_of_letter? {c l : Char} (h : letter? c = some l) : ofLetter? l = some c := by
  unfold letter? at h
  split at h <;> cases h <;> rfl

/-- `letter?` gives no character the letter of a code point. -/
theorem letter?_ne_u {c l : Char} (h : letter? c = some l) : l ≠ 'u' := by
  rintro rfl
  exact absurd (ofLetter?_of_letter? h) (by simp [ofLetter?])

/-- A character without a `letter?` is neither the backslash nor the quote. -/
theorem ne_of_letter?_eq_none {c : Char} (h : letter? c = none) : c ≠ '\\' ∧ c ≠ '"' := by
  constructor
  · rintro rfl
    cases h
  · rintro rfl
    cases h

/-! ## Code points -/

/-- `hexValue?` reads a digit as its value, and a digit does not close the braces. -/
theorem hexValue?_digitChar {n : Nat} (h : n < 16) :
    hexValue? (Nat.digitChar n) = some n ∧ Nat.digitChar n ≠ '}' := by
  have hall : ∀ m : Fin 16, hexValue? (Nat.digitChar m) = some m.val ∧ Nat.digitChar m ≠ '}' := by
    decide
  exact hall ⟨n, h⟩

/-- `decodeFrom (.digits n?)` takes in one digit more in the braces. -/
theorem decodeFrom_digit (n? : Option Nat) {d : Nat} (hd : d < 16) (rest : List Char) :
    decodeFrom (.digits n?) (Nat.digitChar d :: rest)
      = decodeFrom (.digits (some (16 * n?.getD 0 + d))) rest := by
  obtain ⟨hvalue, hne⟩ := hexValue?_digitChar hd
  rw [decodeFrom, if_neg hne, hvalue]
  rfl

/-- **The digits of a number** in the braces are taken in by `decodeFrom` as this number. -/
theorem decodeFrom_toDigits (n : Nat) (rest : List Char) :
    decodeFrom (.digits none) (Nat.toDigits 16 n ++ rest)
      = decodeFrom (.digits (some n)) rest := by
  -- the last digit is taken in behind the digits of the sixteenth part
  induction n using Nat.strongRecOn generalizing rest with
  | ind n ih =>
    rw [Nat.toDigits_eq_if (by decide)]
    split
    · rename_i hn
      rw [List.singleton_append, decodeFrom_digit none hn]
      simp
    · rename_i hn
      rw [List.append_assoc, List.singleton_append, ih (n / 16) (by omega),
        decodeFrom_digit _ (Nat.mod_lt n (by decide)), Option.getD_some, Nat.div_add_mod]

/-- `decodeFrom .opening` reads `codePoint c` as `c`. -/
theorem decodeFrom_codePoint (c : Char) (rest : List Char) :
    decodeFrom .opening (codePoint c ++ rest) = (decodeFrom .plain rest).map (c :: ·) := by
  have hvalid : c.toNat.isValidChar := c.valid
  rw [codePoint, List.cons_append, List.append_assoc, decodeFrom, if_pos rfl, decodeFrom_toDigits,
    List.singleton_append, decodeFrom, if_pos rfl]
  cases decodeFrom .plain rest <;> simp [hvalid]

/-! ## Texts -/

/-- **The written form of a character**: `decodeFrom .plain` takes in `encodeChar hidden c` as
`c`. -/
theorem decodeFrom_encodeChar (hidden : Char → Bool) (c : Char) (rest : List Char) :
    decodeFrom .plain (encodeChar hidden c ++ rest) = (decodeFrom .plain rest).map (c :: ·) := by
  unfold encodeChar
  split
  · rename_i l hl
    rw [List.cons_append, List.singleton_append, decodeFrom, if_pos rfl, decodeFrom,
      if_neg (letter?_ne_u hl), ofLetter?_of_letter? hl]
    cases decodeFrom .plain rest <;> rfl
  · rename_i hnone
    obtain ⟨hbackslash, hquote⟩ := ne_of_letter?_eq_none hnone
    split
    · rw [List.cons_append, List.cons_append, decodeFrom, if_pos rfl, decodeFrom, if_pos rfl,
        decodeFrom_codePoint]
    · rw [List.singleton_append, decodeFrom, if_neg hbackslash, if_neg hquote]

/-- **Reading undoes writing**, whichever characters are hidden. -/
@[simp] theorem decode_encode (hidden : Char → Bool) (s : List Char) :
    decode (encode hidden s) = some s := by
  induction s with
  | nil => rfl
  | cons c s ih =>
    rw [encode, List.flatMap_cons, ← encode, decode, decodeFrom_encodeChar, ← decode, ih,
      Option.map_some]

end Quoted

/-! ## Quotes -/

/-- **The text quoted in a message**: what stands between the first and the last quote, read
back. -/
def quotedText? (message : String) : Option String :=
  let behind := (message.toList.dropWhile (· != '"')).drop 1
  (Quoted.decode (behind.rdropWhile (· != '"')).dropLast).map String.ofList

/-- **A text quoted in a message is read back**: `quotedText?` finds the `s` of
`quoteHiding hidden s` if no other quote stands in the message. -/
theorem quotedText?_append {front back : String} (hfront : '"' ∉ front.toList)
    (hback : '"' ∉ back.toList) (hidden : Char → Bool) (s : String) :
    quotedText? (front ++ quoteHiding hidden s ++ back) = some s := by
  have hbefore : ∀ c ∈ front.toList, (c != '"') = true := fun c hc =>
    bne_iff_ne.mpr fun heq => hfront (heq ▸ hc)
  have hbehind : ∀ c ∈ back.toList, (c != '"') = true := fun c hc =>
    bne_iff_ne.mpr fun heq => hback (heq ▸ hc)
  -- the first quote stands behind `front`, and the last one before `back`
  have hdrop : (front ++ quoteHiding hidden s ++ back).toList.dropWhile (· != '"')
      = '"' :: (Quoted.encode hidden s.toList ++ ['"'] ++ back.toList) := by
    rw [String.toList_append, String.toList_append, quoteHiding, String.toList_ofList,
      List.append_assoc, List.dropWhile_append_of_pos hbefore, List.cons_append,
      List.dropWhile_cons_of_neg (by decide)]
  have hrdrop : (Quoted.encode hidden s.toList ++ ['"'] ++ back.toList).rdropWhile (· != '"')
      = Quoted.encode hidden s.toList ++ ['"'] := by
    rw [List.rdropWhile, List.reverse_append,
      List.dropWhile_append_of_pos fun c hc => hbehind c (List.mem_reverse.mp hc),
      List.reverse_append, List.reverse_singleton, List.singleton_append,
      List.dropWhile_cons_of_neg (by decide), List.reverse_cons, List.reverse_reverse]
  simp only [quotedText?, hdrop, List.drop_succ_cons, List.drop_zero, hrdrop,
    List.dropLast_concat, Quoted.decode_encode, Option.map_some, String.ofList_toList]

/-- **A text quoted in a frame is read back** by `quotedText?`. -/
theorem quotedText?_frame {f : String → String} (hf : IsFrame f) (hidden : Char → Bool)
    (s : String) : quotedText? (f (quoteHiding hidden s)) = some s := by
  obtain ⟨front, back, hfront, hback, hwords⟩ := hf
  rw [hwords]
  exact quotedText?_append hfront hback hidden s

/-! ## Frames -/

/-- Words without a quote before a text are a frame for it: `IsFrame (front ++ ·)`. -/
theorem isFrame_append {front : String} (hfront : '"' ∉ front.toList) : IsFrame (front ++ ·) :=
  ⟨front, "", hfront, by decide, fun _ => String.append_empty.symm⟩

/-- **A frame within a frame** is a frame: `IsFrame` is closed under composition. -/
theorem IsFrame.comp {f g : String → String} (hf : IsFrame f) (hg : IsFrame g) :
    IsFrame fun s => f (g s) := by
  obtain ⟨front, back, hfront, hback, hwords⟩ := hf
  obtain ⟨front', back', hfront', hback', hwords'⟩ := hg
  refine ⟨front ++ front', back' ++ back, ?_, ?_, fun s => ?_⟩
  · rw [String.toList_append, List.mem_append, not_or]
    exact ⟨hfront, hfront'⟩
  · rw [String.toList_append, List.mem_append, not_or]
    exact ⟨hback', hback⟩
  · simp only [hwords, hwords', String.append_assoc]

/-- Text that looks like an escape is no escape: the backslash in it is written twice. -/
example : quoteHiding (· == 'A') "\\u\x7b41\x7dA" = "\"\\\\u\x7b41\x7d\\u\x7b41\x7d\"" := by decide

end TaggedWord.Text
