/-! # Layout of a number in a field

A number is put into a field of a least width, with a fill on the side that its alignment leaves
free or with zeros between its sign and its digits.

* **`Layout`** — the choices: fill, alignment, plus sign, zero padding, width, and the kind of text.
* **`Layout.field`** — the text of a sign and digits in the field.
* **`Layout.ofTemplate?`** — reads a layout from its short form, such as `*^+w`, in which `w` stands
  for the width. -/

namespace TaggedWord.Text

/-- **The side on which a text stands** in a wider field. -/
inductive Alignment where
  | left
  | center
  | right
  deriving DecidableEq, Repr

/-- **The choices for a number in a field.** -/
structure Layout where
  /-- What fills the field up to its width. -/
  fill : Char
  /-- Where the text stands in the field. -/
  align : Alignment
  /-- Whether a number that is not negative has a plus sign. -/
  plus : Bool
  /-- Whether zeros between sign and digits take the place of the fill. -/
  zeroPad : Bool
  /-- The least number of characters. -/
  width : Nat
  /-- Whether the descriptive text is wanted, to which no other choice applies. -/
  descriptive : Bool
  deriving DecidableEq, Repr

namespace Layout

/-- The number alone. -/
def plain : Layout where
  fill := ' '
  align := .right
  plus := false
  zeroPad := false
  width := 0
  descriptive := false

/-! ## Filling a field -/

/-- The number of fill characters before the text, of `gap` in all. In a centered text the odd one
stands behind. -/
def leading (align : Alignment) (gap : Nat) : Nat :=
  match align with
  | .left => 0
  | .center => gap / 2
  | .right => gap

/-- **A sign and digits in a field.** The field is as wide as the layout asks for, or as the text if
that is longer. -/
def field (l : Layout) (sign digits : List Char) : List Char :=
  let gap := l.width - (sign.length + digits.length)
  if l.zeroPad then sign ++ List.replicate gap '0' ++ digits
  else
    let before := leading l.align gap
    List.replicate before l.fill ++ (sign ++ digits) ++ List.replicate (gap - before) l.fill

/-! ## Short forms -/

/-- The alignment that a character stands for. -/
def alignment? : Char → Option Alignment
  | '<' => some .left
  | '^' => some .center
  | '>' => some .right
  | _ => none

/-- Takes in the alignment at the start of a short form, with a fill character in front of it or
without one. -/
def takeAlignment (l : Layout) : List Char → Layout × List Char
  | [] => (l, [])
  | a :: rest =>
    match rest.head? >>= alignment? with
    | some align => ({ l with fill := a, align }, rest.drop 1)
    | none =>
      match alignment? a with
      | some align => ({ l with align }, rest)
      | none => (l, a :: rest)

/-- Takes in a flag if the short form starts with it. -/
def takeFlag (flag : Char) (set : Layout → Layout) (p : Layout × List Char) : Layout × List Char :=
  match p.2 with
  | [] => p
  | c :: rest => if c = flag then (set p.1, rest) else p

/-- Drops a precision, which means nothing for whole numbers. -/
def dropPrecision : List Char → List Char
  | '.' :: rest => rest.dropWhile Char.isDigit
  | s => s

/-- **A layout from its short form**: alignment, `+` for the plus sign, `#` without effect, `0` for
zero padding, `w` for the width, a precision without effect, and `?` for the descriptive text, each
of which may be missing. -/
def ofTemplate? (width : Nat) (template : String) : Option Layout :=
  let start := takeAlignment plain template.toList
  let signed := takeFlag '+' (fun l => { l with plus := true }) start
  let marked := takeFlag '#' id signed
  let padded := takeFlag '0' (fun l => { l with zeroPad := true }) marked
  let sized := takeFlag 'w' (fun l => { l with width }) padded
  let (l, rest) := takeFlag '?' (fun l => { l with descriptive := true })
    (sized.1, dropPrecision sized.2)
  if rest.isEmpty then some l else none

end Layout

end TaggedWord.Text
