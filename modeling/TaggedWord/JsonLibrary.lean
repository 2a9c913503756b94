import TaggedWord.Datum
import TaggedWord.Collection.WordMap

/-! # Words through a JSON library

Words travel through JSON by way of a library that writes and reads the documents. A JSON number
cannot be relied on to carry 64 bits, so the library is handed the decimal text of a word
(`Word.decimal`). Of a document it hands over what it finds, and `Word.ofDatum` makes a word of it.
No particular library is meant: it is a parameter, and what is relied on is stated as laws.

* **`JsonLibrary`** — what a library is asked to do.
* **`JsonLibrary.LawfulTexts`**, **`LawfulLists`**, **`LawfulMaps`** — what is relied on for texts
  that need no escapes, for lists and for maps of such texts.
* **`writeWord`**, **`writeWords`**, **`writeWordMap`** — the documents of words.
* **`readWord`**, **`readWords`**, **`readWordMap`** — the words of documents. -/

namespace TaggedWord

/-- **What a JSON library is asked to do**, with `ε` for what it answers to a document that it
refuses. Values are written by their texts, and read by functions that take what was found. -/
structure JsonLibrary (ε : Type) where
  /-- The document of a text. -/
  writeText : String → String
  /-- The document of a list, each element of which is written as a text. -/
  writeList {α : Type} (text : α → String) : List α → String
  /-- The document of a map with these entries, whose keys and values are written as texts. -/
  writeMap {κ ν : Type} (keyText : κ → String) (valueText : ν → String) : List (κ × ν) → String
  /-- Reads a document and lets `take` make a value of what it holds. -/
  readValue {α : Type} (take : Datum → Except DataError α) : String → Except ε α
  /-- Reads the document of a list and lets `take` make a value of each element. -/
  readList {α : Type} (take : Datum → Except DataError α) : String → Except ε (List α)
  /-- Reads the document of a map, lets `takeKey` and `takeValue` make the key and the value of each
  entry, and puts the entries into `start` by `insert`. -/
  readMap {κ ν μ : Type} (takeKey : Datum → Except DataError κ)
    (takeValue : Datum → Except DataError ν) (insert : μ → κ → ν → μ) (start : μ) :
    String → Except ε μ

namespace JsonLibrary

variable {ε : Type}

/-! ## What is relied on -/

/-- The characters that need no escape in a JSON string. -/
def IsPlain (c : Char) : Prop := c ≠ '"' ∧ c ≠ '\\' ∧ ¬c.toNat < 0x20

/-- **The texts that need no escapes** in JSON. -/
def IsPlainText (s : String) : Prop := ∀ c ∈ s.toList, IsPlain c

/-- A text between double quotes, as it stands. -/
def quoted (s : String) : String := "\"" ++ s ++ "\""

/-- Parts of a document with commas between them, in brackets. -/
def enclosed (opening close : String) (parts : List String) : String :=
  opening ++ ",".intercalate parts ++ close

/-- A key and its value, both texts, as an entry of the document of a map. -/
def quotedEntry (key value : String) : String := quoted key ++ ":" ++ quoted value

/-- **What is relied on for texts that need no escapes.** -/
structure LawfulTexts (lib : JsonLibrary ε) : Prop where
  /-- Such a text is written between double quotes. -/
  writeText_eq (s : String) : IsPlainText s → lib.writeText s = quoted s
  /-- It is read back unchanged: what is taken is the text. -/
  readValue_quoted {α : Type} (take : Datum → Except DataError α) (s : String) (a : α) :
    IsPlainText s → take (.text s) = .ok a → lib.readValue take (quoted s) = .ok a

/-- **What is relied on for lists** of such texts. -/
structure LawfulLists (lib : JsonLibrary ε) : Prop extends LawfulTexts lib where
  /-- The elements are written with commas between them, in brackets. -/
  writeList_eq {α : Type} (text : α → String) (xs : List α) :
    lib.writeList text xs = enclosed "[" "]" (xs.map fun x => lib.writeText (text x))
  /-- They are read back one by one. -/
  readList_enclosed {α : Type} (take : Datum → Except DataError α) (made : String → α)
    (ss : List String) : (∀ s ∈ ss, IsPlainText s ∧ take (.text s) = .ok (made s)) →
      lib.readList take (enclosed "[" "]" (ss.map quoted)) = .ok (ss.map made)

/-- **What is relied on for maps** from such texts to such texts. -/
structure LawfulMaps (lib : JsonLibrary ε) : Prop extends LawfulTexts lib where
  /-- The entries are written in their order, with the keys as strings. -/
  writeMap_eq {κ ν : Type} (keyText : κ → String) (valueText : ν → String) (es : List (κ × ν)) :
    lib.writeMap keyText valueText es = enclosed "\x7b" "\x7d"
      (es.map fun e => lib.writeText (keyText e.1) ++ ":" ++ lib.writeText (valueText e.2))
  /-- They are read back in the order of the document, the keys as texts, and inserted one by
  one. -/
  readMap_enclosed {κ ν μ : Type} (takeKey : Datum → Except DataError κ)
    (takeValue : Datum → Except DataError ν) (insert : μ → κ → ν → μ) (start : μ)
    (madeKey : String → κ) (madeValue : String → ν) (es : List (String × String)) :
    (∀ e ∈ es, (IsPlainText e.1 ∧ takeKey (.text e.1) = .ok (madeKey e.1)) ∧
      IsPlainText e.2 ∧ takeValue (.text e.2) = .ok (madeValue e.2)) →
      lib.readMap takeKey takeValue insert start
          (enclosed "\x7b" "\x7d" (es.map fun e => quotedEntry e.1 e.2))
        = .ok (es.foldl (fun m e => insert m (madeKey e.1) (madeValue e.2)) start)

/-! ## Words -/

variable (lib : JsonLibrary ε)

/-- **The document of a word**: its decimal text. -/
def writeWord (w : Word) : String := lib.writeText w.decimal

/-- **The document of a list of words.** -/
def writeWords (ws : List Word) : String := lib.writeList Word.decimal ws

/-- **The document of a map of words**, in the order of the keys. -/
def writeWordMap (m : WordMap Word) : String := lib.writeMap Word.decimal Word.decimal m.toList

/-- **The word of a document.** -/
def readWord (s : String) : Except ε Word := lib.readValue Word.ofDatum s

/-- **The list of words of a document.** -/
def readWords (s : String) : Except ε (List Word) := lib.readList Word.ofDatum s

/-- **The map of words of a document.** Of equal keys the first is kept, with the last value. -/
def readWordMap (s : String) : Except ε (WordMap Word) :=
  lib.readMap Word.ofDatum Word.ofDatum WordMap.insert .empty s

end JsonLibrary

end TaggedWord
