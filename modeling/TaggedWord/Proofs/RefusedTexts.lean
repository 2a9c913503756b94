import TaggedWord.Datum
import TaggedWord.Proofs.Quoting

/-! # Refused texts and their errors

A text that spells no word is refused by the reader that gives an error value and by the one that
takes data from a format, and by no other reason than that. Both errors quote the text, from which
it can be read back, so different texts have different errors. This does not depend on which
characters the quotes hide, nor on the words that a format puts around them.

* **`ParseError.invalidLiteralHiding_inj`** — the error values of different texts differ, for any
  set of hidden characters.
* **`DataError.messageIn_badText_inj`** — so do the messages about them, in any `ErrorWording` that
  quotes texts.
* **`Word.refused_texts_told_apart`** — which texts are refused, and what their errors tell. -/

namespace TaggedWord

open Text

/-! ## Errors that quote a text -/

/-- **The text is read back from its error** by `quotedText?`, whichever characters are hidden. -/
theorem ParseError.quotedText?_invalidLiteralHiding (hidden : Char → Bool) (s : String) :
    quotedText? (invalidLiteralHiding hidden s).message = some s :=
  quotedText?_frame (isFrame_append (by decide)) hidden s

/-- `ParseError.invalidLiteralHiding hidden` is injective: different texts have different errors. -/
theorem ParseError.invalidLiteralHiding_inj (hidden : Char → Bool) {s t : String} :
    invalidLiteralHiding hidden s = invalidLiteralHiding hidden t ↔ s = t := by
  refine ⟨fun h => ?_, congrArg _⟩
  have hread := congrArg (fun e : ParseError => quotedText? e.message) h
  simpa only [quotedText?_invalidLiteralHiding, Option.some.injEq] using hread

section Wording

variable {words : ErrorWording} {hidden : Char → Bool} (h : words.QuotesTexts hidden)
include h

/-- **The text is read back from the message about it** by `quotedText?`, in a wording that quotes
texts. -/
theorem DataError.quotedText?_messageIn_badText (s : String) :
    quotedText? ((badText s).messageIn words) = some s := by
  obtain ⟨f, hf, hdescribe⟩ := h.describe_text
  -- what is expected holds no quote, so the message is a frame for the description of the text
  have hmessage := h.badValue_isFrame Wanted.word.describe (by decide)
  rw [messageIn, hdescribe]
  exact quotedText?_frame (hmessage.comp hf) hidden s

/-- `(badText s).messageIn words` is injective in `s` for a wording that quotes texts. -/
theorem DataError.messageIn_badText_inj {s t : String} :
    (badText s).messageIn words = (badText t).messageIn words ↔ s = t := by
  refine ⟨fun heq => ?_, fun heq => by rw [heq]⟩
  have hread := congrArg quotedText? heq
  simpa only [quotedText?_messageIn_badText h, Option.some.injEq] using hread

end Wording

/-- **The plain wording quotes texts**: `QuotesTexts isUnprintable`. -/
theorem ErrorWording.quotesTexts_plain (unitName : String) :
    (plain unitName).QuotesTexts isUnprintable where
  describe_text := ⟨("string " ++ ·), isFrame_append (by decide), fun _ => rfl⟩
  badValue_isFrame expected hexpected := by
    refine ⟨"invalid value: ", ", expected " ++ expected, by decide, ?_, fun found => ?_⟩
    · rw [String.toList_append, List.mem_append, not_or]
      exact ⟨by decide, hexpected⟩
    · simp only [plain, String.append_assoc]

/-! ## Texts that are refused -/

namespace Word

/-- `Word.parse s` gives a word exactly if `parse? .signed s` does, and the same one. -/
theorem parse_eq_ok_iff (s : String) (w : Word) : parse s = .ok w ↔ parse? .signed s = some w := by
  rw [parse]
  cases parse? .signed s <;> simp

/-- `Word.parse s` fails exactly if `parse? .signed s` gives no word, with the error that quotes
`s`. -/
theorem parse_eq_error_iff (s : String) (e : ParseError) :
    parse s = .error e ↔ parse? .signed s = none ∧ e = .invalidLiteral s := by
  rw [parse]
  cases parse? .signed s <;> simp [eq_comm]

/-- `Word.ofText s` gives a word exactly if `parse? .signed s` does, and the same one. -/
theorem ofText_eq_ok_iff (s : String) (w : Word) :
    ofText s = .ok w ↔ parse? .signed s = some w := by
  rw [ofText]
  cases parse? .signed s <;> simp

/-- `Word.ofText s` fails exactly if `parse? .signed s` gives no word, with the error
`badText s`. -/
theorem ofText_eq_error_iff (s : String) (e : DataError) :
    ofText s = .error e ↔ parse? .signed s = none ∧ e = .badText s := by
  rw [ofText]
  cases parse? .signed s <;> simp [eq_comm]

/-- **Refused texts are told apart by their errors.** `parse` and `ofDatum` refuse a text if and
only if `parse? .signed` gives no word, and otherwise both give that word. The error values of two
refused texts are equal if and only if the texts are, and `quotedText?` reads the text back from its
error; this holds for every set of characters that the quotes write by their code points. The same
is true of the messages about two refused texts, in the words of any format that quotes texts. -/
theorem refused_texts_told_apart :
    (∀ s : String,
      (∀ w, parse s = .ok w ↔ parse? .signed s = some w) ∧
      (∀ w, ofDatum (.text s) = .ok w ↔ parse? .signed s = some w) ∧
      ((∃ e, parse s = .error e) ↔ parse? .signed s = none) ∧
      ((∃ e, ofDatum (.text s) = .error e) ↔ parse? .signed s = none)) ∧
    (∀ (s t : String) (e f : ParseError), parse s = .error e → parse t = .error f →
      quotedText? e.message = some s ∧ (e = f ↔ s = t)) ∧
    (∀ (hidden : Char → Bool) (s t : String),
      quotedText? (ParseError.invalidLiteralHiding hidden s).message = some s ∧
      (ParseError.invalidLiteralHiding hidden s = .invalidLiteralHiding hidden t ↔ s = t)) ∧
    ∀ (words : ErrorWording) (hidden : Char → Bool), words.QuotesTexts hidden →
      ∀ (s t : String) (e f : DataError), ofDatum (.text s) = .error e →
        ofDatum (.text t) = .error f →
          quotedText? (e.messageIn words) = some s ∧
          (e.messageIn words = f.messageIn words ↔ s = t) := by
  refine ⟨fun s => ⟨parse_eq_ok_iff s, ofText_eq_ok_iff s, ?_, ?_⟩, ?_, ?_, ?_⟩
  · exact ⟨fun ⟨e, he⟩ => ((parse_eq_error_iff s e).mp he).1,
      fun h => ⟨_, (parse_eq_error_iff s _).mpr ⟨h, rfl⟩⟩⟩
  · exact ⟨fun ⟨e, he⟩ => ((ofText_eq_error_iff s e).mp he).1,
      fun h => ⟨_, (ofText_eq_error_iff s _).mpr ⟨h, rfl⟩⟩⟩
  · intro s t e f he hf
    rw [((parse_eq_error_iff s e).mp he).2, ((parse_eq_error_iff t f).mp hf).2]
    exact ⟨ParseError.quotedText?_invalidLiteralHiding _ s, ParseError.invalidLiteralHiding_inj _⟩
  · intro hidden s t
    exact ⟨ParseError.quotedText?_invalidLiteralHiding hidden s,
      ParseError.invalidLiteralHiding_inj hidden⟩
  · intro words hidden hquotes s t e f he hf
    rw [((ofText_eq_error_iff s e).mp he).2, ((ofText_eq_error_iff t f).mp hf).2]
    exact ⟨DataError.quotedText?_messageIn_badText hquotes s,
      DataError.messageIn_badText_inj hquotes⟩

/-- A line break and the two characters that it is written by are refused with different errors and,
in plain words, with different messages, and each is read back from its own. -/
theorem line_break_told_apart :
    (∃ e f : ParseError, parse "\n" = .error e ∧ parse "\\n" = .error f ∧ e ≠ f ∧
      quotedText? e.message = some "\n" ∧ quotedText? f.message = some "\\n") ∧
    (ErrorWording.plain "null").QuotesTexts isUnprintable ∧
    ∃ e f : DataError, ofDatum (.text "\n") = .error e ∧ ofDatum (.text "\\n") = .error f ∧
      e.message "null" ≠ f.message "null" ∧
      quotedText? (e.message "null") = some "\n" ∧
      quotedText? (f.message "null") = some "\\n" := by
  obtain ⟨hreaders, herrors, -, hmessages⟩ := refused_texts_told_apart
  have hquotes := ErrorWording.quotesTexts_plain "null"
  have hne : "\n" ≠ "\\n" := by decide
  have hbreak : parse? .signed "\n" = none := by decide
  have hletters : parse? .signed "\\n" = none := by decide
  refine ⟨?_, hquotes, ?_⟩
  · obtain ⟨e, he⟩ := (hreaders "\n").2.2.1.mpr hbreak
    obtain ⟨f, hf⟩ := (hreaders "\\n").2.2.1.mpr hletters
    obtain ⟨hquoted, hinj⟩ := herrors "\n" "\\n" e f he hf
    exact ⟨e, f, he, hf, fun h => hne (hinj.mp h), hquoted, (herrors _ _ f f hf hf).1⟩
  · obtain ⟨e, he⟩ := (hreaders "\n").2.2.2.mpr hbreak
    obtain ⟨f, hf⟩ := (hreaders "\\n").2.2.2.mpr hletters
    obtain ⟨hquoted, hinj⟩ := hmessages _ _ hquotes "\n" "\\n" e f he hf
    exact ⟨e, f, he, hf, fun h => hne (hinj.mp h), hquoted, (hmessages _ _ hquotes _ _ f f hf hf).1⟩

end Word

end TaggedWord
