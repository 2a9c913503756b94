import TaggedWord.Text.Layout

/-! # Short forms of layouts

A short form is put together from parts, each of which may be missing: an alignment with a fill
character in front of it or without one, a plus sign, the mark `#`, a zero, a width, a precision,
and a question mark for the descriptive text. Every short form of this kind is read, as the layout
that its parts ask for (`ofTemplate?_chars`).

* **`Directive`** — the parts of a short form without the question mark, with `Directive.chars` and
  `Directive.template` for what is written and `Directive.layout` for the layout meant. -/

namespace TaggedWord.Text

/-! ## The parts of a short form -/

/-- The character of an alignment. -/
def Alignment.symbol : Alignment → Char
  | left => '<'
  | center => '^'
  | right => '>'

/-- **The parts of a short form.** -/
structure Directive where
  /-- The alignment, with a fill character or without one. -/
  placement : Option (Option Char × Alignment)
  /-- Whether there is a plus sign. -/
  plus : Bool
  /-- Whether there is the mark `#`. -/
  marked : Bool
  /-- Whether there is a zero. -/
  zeroPad : Bool
  /-- Whether there is a width. -/
  sized : Bool
  /-- The precision. -/
  precision : Option Nat
  deriving DecidableEq, Repr

/-- A character that is present or missing. -/
def onlyIf (present : Bool) (c : Char) : List Char := if present then [c] else []

/-- `onlyIf present a` has no other character than `a`. -/
theorem eq_of_mem_onlyIf {present : Bool} {a c : Char} (h : c ∈ onlyIf present a) : c = a := by
  cases present with
  | false => cases h
  | true => exact List.mem_singleton.mp h

namespace Directive

/-! ### What is written -/

/-- The characters of the alignment. -/
def placementChars : Option (Option Char × Alignment) → List Char
  | none => []
  | some (fill, align) => fill.toList ++ [align.symbol]

/-- The characters of the precision. -/
def precisionChars : Option Nat → List Char
  | none => []
  | some n => '.' :: Nat.toDigits 10 n

/-- `precisionChars` are a point and digits. -/
theorem point_or_isDigit_of_mem {precision : Option Nat} {c : Char}
    (h : c ∈ precisionChars precision) : c = '.' ∨ c.isDigit = true := by
  cases precision with
  | none => cases h
  | some n =>
    rcases List.mem_cons.mp h with hpoint | hdigit
    · exact .inl hpoint
    · exact .inr (Nat.isDigit_of_mem_toDigits (by decide) (by decide) hdigit)

/-- The characters behind the alignment, with a question mark or without one. -/
def flagChars (d : Directive) (descriptive : Bool) : List Char :=
  onlyIf d.plus '+' ++ (onlyIf d.marked '#' ++ (onlyIf d.zeroPad '0' ++
    (onlyIf d.sized 'w' ++ (precisionChars d.precision ++ onlyIf descriptive '?'))))

/-- **The characters of a short form**, with a question mark or without one. -/
def chars (d : Directive) (descriptive : Bool) : List Char :=
  placementChars d.placement ++ d.flagChars descriptive

/-- **The short form of a number.** -/
def template (d : Directive) : String := String.ofList (d.chars false)

/-- **The short form of a descriptive text.** -/
def descriptiveTemplate (d : Directive) : String := String.ofList (d.chars true)

/-! ### What is meant -/

/-- The fill character: a space unless there is another one. -/
def fill (d : Directive) : Char := (d.placement.bind Prod.fst).getD ' '

/-- The side on which the text stands: the right one unless there is another one. -/
def side (d : Directive) : Alignment := (d.placement.map Prod.snd).getD .right

/-- The least number of characters, which is the width if there is one. -/
def least (d : Directive) (width : Nat) : Nat := if d.sized then width else 0

/-- **The layout that a short form asks for.** -/
def layout (d : Directive) (width : Nat) (descriptive : Bool) : Layout where
  fill := d.fill
  align := d.side
  plus := d.plus
  zeroPad := d.zeroPad
  width := d.least width
  descriptive := descriptive

end Directive

/-! ## Reading the alignment -/

namespace Layout

/-- `alignment?` reads the symbol of an alignment. -/
@[simp] theorem alignment?_symbol (align : Alignment) : alignment? align.symbol = some align := by
  cases align <;> rfl

/-- `alignment?` finds none in a digit. -/
theorem alignment?_of_isDigit {c : Char} (h : c.isDigit = true) : alignment? c = none := by
  unfold alignment?
  split
  · exact absurd h (by decide)
  · exact absurd h (by decide)
  · exact absurd h (by decide)
  · rfl

/-- `alignment?` finds none in `d.flagChars`, the characters behind the alignment. -/
theorem alignment?_of_mem_flagChars {d : Directive} {descriptive : Bool} {c : Char}
    (h : c ∈ d.flagChars descriptive) : alignment? c = none := by
  simp only [Directive.flagChars, List.mem_append] at h
  rcases h with h | h | h | h | h | h
  · rw [eq_of_mem_onlyIf h]; rfl
  · rw [eq_of_mem_onlyIf h]; rfl
  · rw [eq_of_mem_onlyIf h]; rfl
  · rw [eq_of_mem_onlyIf h]; rfl
  · rcases Directive.point_or_isDigit_of_mem h with rfl | hdigit
    · rfl
    · exact alignment?_of_isDigit hdigit
  · rw [eq_of_mem_onlyIf h]; rfl

/-- No alignment is found at the start of a text in which `alignment?` finds none. -/
theorem head?_bind_alignment? {s : List Char} (hs : ∀ c ∈ s, alignment? c = none) :
    (s.head? >>= alignment?) = none := by
  cases s with
  | nil => rfl
  | cons c rest => exact hs c List.mem_cons_self

/-- **The alignment in front is taken in** by `takeAlignment`, if behind it no character stands for
an alignment. -/
theorem takeAlignment_append (l : Layout) (placement : Option (Option Char × Alignment))
    {s : List Char} (hs : ∀ c ∈ s, alignment? c = none) :
    takeAlignment l (Directive.placementChars placement ++ s)
      = ({ l with
            fill := (placement.bind Prod.fst).getD l.fill
            align := (placement.map Prod.snd).getD l.align }, s) := by
  match placement with
  | none =>
    -- neither the first nor the second character is taken for an alignment
    cases s with
    | nil => rfl
    | cons c rest =>
      have hsecond := head?_bind_alignment? fun b hb => hs b (List.mem_cons_of_mem c hb)
      simp only [Directive.placementChars, List.nil_append, takeAlignment, hsecond,
        hs c List.mem_cons_self]
      rfl
  | some (none, align) =>
    simp only [Directive.placementChars, Option.toList_none, List.nil_append,
      List.singleton_append, takeAlignment, head?_bind_alignment? hs, alignment?_symbol]
    rfl
  | some (some fill, align) =>
    simp only [Directive.placementChars, Option.toList_some,
      List.cons_append, List.nil_append, takeAlignment, List.head?_cons, Option.bind_eq_bind,
      Option.bind_some, alignment?_symbol]
    rfl

/-! ## Reading the flags -/

/-- What a text can start with. -/
def StartsWithin (cs s : List Char) : Prop := ∀ c ∈ s.head?, c ∈ cs

/-- `StartsWithin` with one more character that may stand in front. -/
theorem StartsWithin.onlyIf {cs s : List Char} (h : StartsWithin cs s) (present : Bool)
    (c : Char) : StartsWithin (c :: cs) (Text.onlyIf present c ++ s) := by
  intro b hb
  cases present with
  | false => exact List.mem_cons_of_mem c (h b hb)
  | true =>
    cases hb
    exact List.mem_cons_self

/-- `StartsWithin` with a precision that may stand in front. -/
theorem StartsWithin.precision {cs s : List Char} (h : StartsWithin cs s)
    (precision : Option Nat) :
    StartsWithin ('.' :: cs) (Directive.precisionChars precision ++ s) := by
  intro b hb
  cases precision with
  | none => exact List.mem_cons_of_mem _ (h b hb)
  | some n =>
    cases hb
    exact List.mem_cons_self

/-- **A flag is taken in if it is there**: `takeFlag` behind `onlyIf`, since the text behind it
starts with none like it. -/
theorem takeFlag_onlyIf {cs s : List Char} (hs : StartsWithin cs s) {flag : Char}
    (hflag : flag ∉ cs) (set : Layout → Layout) (l : Layout) (present : Bool) :
    takeFlag flag set (l, onlyIf present flag ++ s) = (if present then set l else l, s) := by
  cases present with
  | true => exact if_pos rfl
  | false =>
    cases s with
    | nil => rfl
    | cons c rest =>
      have hne : c ≠ flag := fun heq => hflag (heq ▸ hs c rfl)
      exact if_neg hne

/-- `dropPrecision` drops a precision if it is there. -/
theorem dropPrecision_append (precision : Option Nat) (descriptive : Bool) :
    dropPrecision (Directive.precisionChars precision ++ onlyIf descriptive '?')
      = onlyIf descriptive '?' := by
  cases precision with
  | none => cases descriptive <;> rfl
  | some n =>
    have hdigits : ∀ c ∈ Nat.toDigits 10 n, c.isDigit = true := fun _ hc =>
      Nat.isDigit_of_mem_toDigits (by decide) (by decide) hc
    show (Nat.toDigits 10 n ++ onlyIf descriptive '?').dropWhile Char.isDigit = _
    rw [List.dropWhile_append_of_pos hdigits]
    cases descriptive <;> rfl

/-- **Every short form is read**: `ofTemplate?` gives `d.layout width` for the characters of `d`. -/
theorem ofTemplate?_chars (d : Directive) (width : Nat) (descriptive : Bool) :
    ofTemplate? width (String.ofList (d.chars descriptive))
      = some (d.layout width descriptive) := by
  -- what the text behind each flag can start with, from the last flag to the first
  have hnil : StartsWithin [] [] := fun _ h => absurd h (by simp)
  have hend := hnil.onlyIf descriptive '?'
  rw [List.append_nil] at hend
  have hpoint := hend.precision d.precision
  have hsized := hpoint.onlyIf d.sized 'w'
  have hzero := hsized.onlyIf d.zeroPad '0'
  have hmarked := hzero.onlyIf d.marked '#'
  have hlast (set : Layout → Layout) (l : Layout) :
      takeFlag '?' set (l, onlyIf descriptive '?')
        = (if descriptive then set l else l, []) := by
    have h := takeFlag_onlyIf hnil (show '?' ∉ [] by decide) set l descriptive
    rwa [List.append_nil] at h
  rw [ofTemplate?, String.toList_ofList, Directive.chars,
    takeAlignment_append _ _ fun _ => alignment?_of_mem_flagChars, Directive.flagChars,
    takeFlag_onlyIf hmarked (show '+' ∉ ['#', '0', 'w', '.', '?'] by decide),
    takeFlag_onlyIf hzero (show '#' ∉ ['0', 'w', '.', '?'] by decide),
    takeFlag_onlyIf hsized (show '0' ∉ ['w', '.', '?'] by decide),
    takeFlag_onlyIf hpoint (show 'w' ∉ ['.', '?'] by decide)]
  simp only [dropPrecision_append, hlast, List.isEmpty_nil, if_true, Option.some.injEq]
  -- each flag has set its own field, or left it as it was
  obtain ⟨placement, plus, marked, zeroPad, sized, precision⟩ := d
  cases plus <;> cases marked <;> cases zeroPad <;> cases sized <;> cases descriptive <;> rfl

/-- A fill and an alignment in front of a zero and a width. -/
example : ofTemplate? 6 "*<0w"
    = some { plain with fill := '*', align := .left, zeroPad := true, width := 6 } := by decide

end Layout

end TaggedWord.Text
