import TaggedWord.JsonLibrary

/-! # Writing JSON documents

Compact documents, without white space. Only texts that need no escapes are written here, as the
decimal texts of words are.

* **`listDocument`**, **`mapDocument`** — the documents of lists and maps of such texts. -/

namespace TaggedWord.JsonText

open JsonLibrary (quoted quotedEntry enclosed)

/-- **The document of a list**: its elements between quotes, in square brackets. -/
def listDocument {α : Type} (text : α → String) (xs : List α) : String :=
  enclosed "[" "]" (xs.map fun x => quoted (text x))

/-- **The document of a map**: its entries with keys and values between quotes, in braces. -/
def mapDocument {κ ν : Type} (keyText : κ → String) (valueText : ν → String) (es : List (κ × ν)) :
    String :=
  enclosed "\x7b" "\x7d" (es.map fun e => quotedEntry (keyText e.1) (valueText e.2))

end TaggedWord.JsonText
