import TaggedWord.Proofs.RoundTrip
import TaggedWord.Proofs.ShortForms

/-! # Words in fields

A word is put into a field by a short form. The field is as wide as the short form asks for, or as
the text of the word if that is longer; what is left over is filled around the text, or with zeros
between the sign and the digits. Zeros are read over, so a text without fill and without a plus sign
is read back as the word that it was made of, and no other text is.

* **`Text.Alignment.Divides`** — how many fill characters stand before and after a text.
* **`Word.naturalText`** — the text of a word, with a plus sign if one is wanted.
* **`Word.formatAs?`** — the text of a word under a short form. -/

namespace TaggedWord

/-! ## Fill -/

namespace Text

/-- **The division of the fill** that an alignment asks for: all of it on the free side, or half of
it on either side with the odd character behind. -/
def Alignment.Divides (align : Alignment) (before after : Nat) : Prop :=
  match align with
  | .left => before = 0
  | .center => after = before ∨ after = before + 1
  | .right => after = 0

namespace Layout

/-- `leading align gap` is no more than the gap. -/
theorem leading_le (align : Alignment) (gap : Nat) : leading align gap ≤ gap := by
  cases align <;> simp only [leading] <;> omega

/-- `leading align gap` in front and the rest behind divide the gap as `align` asks for. -/
theorem divides_leading (align : Alignment) (gap : Nat) :
    align.Divides (leading align gap) (gap - leading align gap) := by
  cases align <;> simp only [Alignment.Divides, leading] <;> omega

/-- **With zero padding** `l.field sign digits` has the zeros that are missing between sign and
digits. -/
theorem field_of_zeroPad {l : Layout} (h : l.zeroPad = true) (sign digits : List Char) :
    l.field sign digits
      = sign ++ List.replicate (l.width - (sign ++ digits).length) '0' ++ digits := by
  rw [field, if_pos h, List.length_append]

/-- **Without zero padding** `l.field sign digits` has the fill around sign and digits, divided as
`l.align` asks for. -/
theorem field_of_fill {l : Layout} (h : l.zeroPad = false) (sign digits : List Char) :
    ∃ before after, l.align.Divides before after ∧
      before + after = l.width - (sign ++ digits).length ∧
      l.field sign digits
        = List.replicate before l.fill ++ (sign ++ digits) ++ List.replicate after l.fill := by
  refine ⟨_, _, divides_leading l.align (l.width - (sign ++ digits).length), ?_, ?_⟩
  · exact Nat.add_sub_cancel' (leading_le _ _)
  · rw [field, if_neg (by simp [h]), List.length_append]

/-- **The width of a field** is `l.width`, or that of `sign ++ digits` if it is longer. -/
theorem length_field (l : Layout) (sign digits : List Char) :
    (l.field sign digits).length = max l.width (sign ++ digits).length := by
  cases h : l.zeroPad with
  | true =>
    rw [field_of_zeroPad h]
    simp only [List.length_append, List.length_replicate]
    omega
  | false =>
    obtain ⟨before, after, -, hsum, hfield⟩ := field_of_fill h sign digits
    rw [hfield, List.length_append, List.length_append, List.length_replicate,
      List.length_replicate]
    omega

/-- The characters of `sign ++ digits` are all in `l.field sign digits`. -/
theorem mem_field {l : Layout} {sign digits : List Char} {c : Char} (h : c ∈ sign ++ digits) :
    c ∈ l.field sign digits := by
  cases hzero : l.zeroPad with
  | true =>
    rw [field_of_zeroPad hzero]
    rcases List.mem_append.mp h with h | h
    · exact List.mem_append_left _ (List.mem_append_left _ h)
    · exact List.mem_append_right _ h
  | false =>
    obtain ⟨before, after, -, -, hfield⟩ := field_of_fill hzero sign digits
    rw [hfield]
    exact List.mem_append_left _ (List.mem_append_right _ h)

/-- **A field without `l.fill` in it** holds sign and digits, with nothing but zeros between
them. -/
theorem field_of_fill_notMem {l : Layout} {sign digits : List Char}
    (h : l.fill ∉ l.field sign digits) :
    ∃ k, l.field sign digits = sign ++ List.replicate k '0' ++ digits := by
  cases hzero : l.zeroPad with
  | true => exact ⟨_, field_of_zeroPad hzero sign digits⟩
  | false =>
    obtain ⟨before, after, -, -, hfield⟩ := field_of_fill hzero sign digits
    rw [hfield] at h ⊢
    -- a fill character before or after the text would be one of the field
    have hbefore : before = 0 := by
      by_contra hne
      exact h (List.mem_append_left _ (List.mem_append_left _ (List.mem_replicate.mpr ⟨hne, rfl⟩)))
    have hafter : after = 0 := by
      by_contra hne
      exact h (List.mem_append_right _ (List.mem_replicate.mpr ⟨hne, rfl⟩))
    exact ⟨0, by simp [hbefore, hafter]⟩

end Layout

end Text

/-! ## Zeros in front of a numeral -/

namespace Numeral

/-- **A numeral with zeros in front of its digits.** -/
def pad (n : Numeral) (k : Nat) : Numeral where
  minuses := n.minuses
  digits := List.replicate k '0' ++ n.digits
  digits_ne_nil := List.append_ne_nil_of_right_ne_nil _ n.digits_ne_nil
  isDigit_of_mem c h := by
    rcases List.mem_append.mp h with h | h
    · rw [List.eq_of_mem_replicate h]
      rfl
    · exact n.isDigit_of_mem c h

@[simp] theorem minuses_pad (n : Numeral) (k : Nat) : (n.pad k).minuses = n.minuses := rfl

@[simp] theorem digits_pad (n : Numeral) (k : Nat) :
    (n.pad k).digits = List.replicate k '0' ++ n.digits := rfl

/-- Zeros in front of the digits leave the integer as it is. -/
@[simp] theorem value_pad (n : Numeral) (k : Nat) : (n.pad k).value = n.value := by
  simp only [value, minuses_pad, digits_pad, placeValue_append, placeValue_replicate_zero,
    zero_mul, zero_add]

end Numeral

namespace Word

/-- `parse?` refuses a text with a character that is neither a minus sign nor a digit. -/
theorem parse?_eq_none_of_mem (tag : Signedness) {s : String} {c : Char} (hmem : c ∈ s.toList)
    (hminus : c ≠ '-') (hdigit : c.isDigit = false) : parse? tag s = none := by
  rw [parse?_eq_none_iff]
  rintro n rfl
  rcases Numeral.minus_or_isDigit_of_mem hmem with h | h
  · exact hminus h
  · rw [hdigit] at h
    cases h

/-! ## The text in the field -/

/-- **The sign of a word**, which is a plus for a word that is not negative if one is wanted. -/
def leadingSign (plus : Bool) (w : Word) : List Char :=
  if w.value < 0 then ['-'] else if plus then ['+'] else []

/-- **The text of a word as it is**: its decimal text, behind a plus sign if one is wanted and the
word is not negative. -/
def naturalText (plus : Bool) (w : Word) : String :=
  (if plus = true ∧ 0 ≤ w.value then "+" else "") ++ w.decimal

/-- `w.leadingSign plus` is a plus in front of a word that is not negative, or `w.sign`. -/
theorem leadingSign_eq_ite (plus : Bool) (w : Word) :
    w.leadingSign plus = if plus && !w.isNegative then ['+'] else w.sign := by
  rw [leadingSign, sign, isNegative_eq_decide]
  by_cases h : w.value < 0
  · simp [h]
  · cases plus <;> simp [h]

/-- `w.leadingSign plus` is `w.sign` if there is no plus in it. -/
theorem leadingSign_of_plus_notMem {plus : Bool} {w : Word} (h : '+' ∉ w.leadingSign plus) :
    w.leadingSign plus = w.sign := by
  rw [leadingSign_eq_ite] at h ⊢
  split at h
  · exact absurd List.mem_cons_self h
  · rename_i hplus
    exact if_neg hplus

/-- `w.naturalText plus` consists of `w.leadingSign plus` and `w.digits`. -/
theorem toList_naturalText (plus : Bool) (w : Word) :
    (w.naturalText plus).toList = w.leadingSign plus ++ w.digits := by
  rw [naturalText, decimal, String.toList_append, String.toList_ofList, ← List.append_assoc]
  congr 1
  rw [leadingSign, sign, isNegative_eq_decide]
  by_cases h : w.value < 0
  · simp [h]
  · have hle : 0 ≤ w.value := Int.not_lt.mp h
    cases plus <;> simp [h, hle]

/-- `w.format l` is the field of the sign and the digits of `w`. -/
theorem format_eq_field {l : Text.Layout} (h : l.descriptive = false) (w : Word) :
    w.format l = String.ofList (l.field (w.leadingSign l.plus) w.digits) := by
  rw [format, if_neg (by simp [h])]
  simp only [leadingSign_eq_ite]

/-! ## Reading a field back -/

/-- **A word with zeros between its sign and its digits** is read by `parse? w.tag` as the word. -/
theorem parse?_zeros (w : Word) (k : Nat) :
    parse? w.tag (String.ofList (w.sign ++ List.replicate k '0' ++ w.digits)) = some w := by
  have htext : String.ofList (w.sign ++ List.replicate k '0' ++ w.digits)
      = ((Numeral.ofInt w.value).pad k).text := by
    rw [Numeral.text, Numeral.chars, Numeral.minuses_pad, Numeral.digits_pad,
      ← sign_eq_replicate, Numeral.digits_ofInt, digits, List.append_assoc]
  rw [htext, parse?_text, Numeral.value_pad, Numeral.value_ofInt, ofInt_value]

/-- **A field is read back** by `parse? w.tag` as the word that was put into it, if there is neither
`l.fill` nor a plus sign in `w.format l`; otherwise it cannot be read. -/
theorem parse?_format {l : Text.Layout} (h : l.descriptive = false) (hminus : l.fill ≠ '-')
    (hdigit : l.fill.isDigit = false) (w : Word) :
    parse? w.tag (w.format l)
      = if l.fill ∈ (w.format l).toList ∨ '+' ∈ (w.format l).toList then none else some w := by
  split
  · rename_i hmem
    rcases hmem with hmem | hmem
    · exact parse?_eq_none_of_mem w.tag hmem hminus hdigit
    · exact parse?_eq_none_of_mem w.tag hmem (by decide) (by decide)
  · rename_i hnone
    rw [format_eq_field h, String.toList_ofList] at hnone
    rw [format_eq_field h]
    obtain ⟨hfill, hplus⟩ := not_or.mp hnone
    obtain ⟨k, hfield⟩ := Text.Layout.field_of_fill_notMem hfill
    have hsign : w.leadingSign l.plus = w.sign :=
      leadingSign_of_plus_notMem fun hmem =>
        hplus (Text.Layout.mem_field (List.mem_append_left _ hmem))
    rw [hfield, hsign, parse?_zeros]

/-! ## Descriptive texts -/

/-- The name of a tag at the end of a descriptive text. -/
def tagChars : Signedness → List Char
  | .signed => ['_', 'i', '6', '4', ')']
  | .unsigned => ['_', 'u', '6', '4', ')']

/-- `w.describe` has the decimal text and the name of the tag between its brackets. -/
theorem toList_describe (w : Word) :
    w.describe.toList = "Long(".toList ++ w.decimal.toList ++ tagChars w.tag := by
  obtain ⟨x, tag⟩ := w
  cases tag <;> simp [describe, isUnsigned, tagChars]

/-- `a.describe = b.describe ↔ a = b`: a descriptive text is that of one word only. -/
theorem describe_inj {a b : Word} : a.describe = b.describe ↔ a = b := by
  refine ⟨fun h => ?_, congrArg describe⟩
  have hchars := congrArg String.toList h
  rw [toList_describe, toList_describe] at hchars
  -- the names of the tags are of the same length, so the texts fall apart in front of them
  have hlength : (tagChars a.tag).length = (tagChars b.tag).length := by
    cases a.tag <;> cases b.tag <;> rfl
  obtain ⟨hfront, hend⟩ := List.append_inj' hchars hlength
  have htag : a.tag = b.tag := by
    cases ha : a.tag <;> cases hb : b.tag <;> simp [ha, hb, tagChars] at hend ⊢
  have hdecimal : a.decimal = b.decimal := String.toList_inj.mp (List.append_cancel_left hfront)
  have hread : some a = some b :=
    calc
      some a = parse? a.tag a.decimal := (parse?_decimal a.tag a).symm
      _ = parse? b.tag b.decimal := by rw [htag, hdecimal]
      _ = some b := parse?_decimal b.tag b
  exact Option.some.inj hread

/-! ## Every short form -/

/-- **The text of a word under a short form**, if the short form can be read. -/
def formatAs? (width : Nat) (template : String) (w : Word) : Option String :=
  (Text.Layout.ofTemplate? width template).map fun l => w.format l

/-- `w.formatAs?` reads `d.template` as the layout that the directive `d` stands for. -/
theorem formatAs?_template (d : Text.Directive) (width : Nat) (w : Word) :
    w.formatAs? width d.template = some (w.format (d.layout width false)) := by
  rw [formatAs?, Text.Directive.template, Text.Layout.ofTemplate?_chars, Option.map_some]

/-- `w.formatAs?` gives `w.describe` under every `d.descriptiveTemplate`. -/
theorem formatAs?_descriptiveTemplate (d : Text.Directive) (width : Nat) (w : Word) :
    w.formatAs? width d.descriptiveTemplate = some w.describe := by
  rw [formatAs?, Text.Directive.descriptiveTemplate, Text.Layout.ofTemplate?_chars,
    Option.map_some]
  rfl

/-- **Words under every short form.** The text that `w.formatAs?` gives for `d.template` has the
width asked for, or that of `w.naturalText` if that is longer. Without a zero in the short form it
is this text with `d.fill` around it, divided as `d.side` asks for; with a zero it is the sign,
zeros and the digits, whatever the alignment. `parse?` reads it back as the word if there is neither
fill nor a plus sign in it, and refuses it otherwise. `w.describe` is the same under every short
form, and another one for every word. -/
theorem formatAs?_every_directive (d : Text.Directive) (width : Nat) (w : Word) :
    (∃ text, w.formatAs? width d.template = some text ∧
      text.length = max (d.least width) (w.naturalText d.plus).length ∧
      (d.zeroPad = false → ∃ before after, d.side.Divides before after ∧
        text.toList = List.replicate before d.fill ++ (w.naturalText d.plus).toList
          ++ List.replicate after d.fill) ∧
      (d.zeroPad = true →
        (w.naturalText d.plus).toList = w.leadingSign d.plus ++ w.digits ∧
        text.toList = w.leadingSign d.plus
          ++ List.replicate (d.least width - (w.naturalText d.plus).length) '0' ++ w.digits) ∧
      (d.fill ≠ '-' → d.fill.isDigit = false →
        parse? w.tag text
          = if d.fill ∈ text.toList ∨ '+' ∈ text.toList then none else some w)) ∧
    w.formatAs? width d.descriptiveTemplate = some w.describe ∧
    ∀ v : Word, v.describe = w.describe ↔ v.bits = w.bits ∧ v.tag = w.tag := by
  have hformat : w.format (d.layout width false)
      = String.ofList ((d.layout width false).field (w.leadingSign d.plus) w.digits) :=
    format_eq_field rfl w
  have hlength : (w.naturalText d.plus).length = (w.leadingSign d.plus ++ w.digits).length := by
    rw [← toList_naturalText, String.length_toList]
  refine ⟨⟨_, formatAs?_template d width w, ?_, fun hzero => ?_, fun hzero => ?_, ?_⟩,
    formatAs?_descriptiveTemplate d width w, fun v => ?_⟩
  · rw [hformat, String.length_ofList, Text.Layout.length_field, hlength]
    rfl
  · obtain ⟨before, after, hdivides, -, hfield⟩ :=
      Text.Layout.field_of_fill (l := d.layout width false) hzero (w.leadingSign d.plus) w.digits
    refine ⟨before, after, hdivides, ?_⟩
    rw [hformat, String.toList_ofList, hfield, toList_naturalText]
    rfl
  · refine ⟨toList_naturalText d.plus w, ?_⟩
    rw [hformat, String.toList_ofList, hlength]
    exact Text.Layout.field_of_zeroPad hzero _ _
  · intro hminus hdigit
    exact parse?_format (l := d.layout width false) rfl hminus hdigit w
  · rw [describe_inj, Word.ext_iff]

/-- In eight places between stars, 42 with a plus sign leaves five of them, two before and three
after, and cannot be read back; in six places with zeros, -42 can, although its short form asks for
stars on the right. -/
theorem formatAs?_centered_and_zero_padded :
    (∃ text, formatAs? 8 "*^+#w.2" ⟨42, .signed⟩ = some text ∧ text = "**+42***" ∧
      (∃ before after, Text.Alignment.center.Divides before after ∧
        text.toList = List.replicate before '*' ++ "+42".toList ++ List.replicate after '*') ∧
      parse? .signed text = none) ∧
    ∃ text, formatAs? 6 "*<0w" ⟨-42, .signed⟩ = some text ∧ text = "-00042" ∧
      text.toList = ['-'] ++ List.replicate 3 '0' ++ ['4', '2'] ∧
      parse? .signed text = some ⟨-42, .signed⟩ := by
  constructor
  · obtain ⟨text, htext, -, hfill, -, hread⟩ := (formatAs?_every_directive
      ⟨some (some '*', .center), true, true, false, true, some 2⟩ 8 ⟨42, .signed⟩).1
    have hformat : formatAs? 8 "*^+#w.2" ⟨42, .signed⟩ = some "**+42***" := by decide +kernel
    have hstars : text = "**+42***" := Option.some.inj (htext.symm.trans hformat)
    refine ⟨text, htext, hstars, hfill rfl, ?_⟩
    rw [hread (by decide) (by decide), hstars]
    exact if_pos (by decide)
  · obtain ⟨text, htext, -, -, hzero, hread⟩ := (formatAs?_every_directive
      ⟨some (some '*', .left), false, false, true, true, none⟩ 6 ⟨-42, .signed⟩).1
    have hformat : formatAs? 6 "*<0w" ⟨-42, .signed⟩ = some "-00042" := by decide +kernel
    have hzeros : text = "-00042" := Option.some.inj (htext.symm.trans hformat)
    refine ⟨text, htext, hzeros, (hzero rfl).2, ?_⟩
    rw [hread (by decide) (by decide), hzeros]
    exact if_neg (by decide)

end Word

end TaggedWord
