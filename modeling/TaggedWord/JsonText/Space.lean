/-! # White space in a JSON text

* **`skipSpace`** — what follows the white space at the start of a text. -/

namespace TaggedWord.JsonText

/-- The four characters that may stand between the parts of a text. -/
def isSpace (c : Char) : Bool := c == ' ' || c == '\n' || c == '\t' || c == '\r'

/-- **What follows the white space** at the start of a text. -/
def skipSpace (s : List Char) : List Char := s.dropWhile isSpace

/-- `skipSpace` leaves no more than it was given. -/
theorem length_skipSpace_le (s : List Char) : (skipSpace s).length ≤ s.length :=
  (List.dropWhile_sublist isSpace).length_le

end TaggedWord.JsonText
