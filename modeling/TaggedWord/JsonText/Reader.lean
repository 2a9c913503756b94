import TaggedWord.JsonText.Space
import TaggedWord.JsonText.StringLiteral
import TaggedWord.JsonText.NumberLiteral
import TaggedWord.JsonText.Writer

/-! # A JSON library

A document holds a value, a list or a map, with white space around each of its parts. What it holds
is handed over as data, of which the caller makes its values. Reading stops at the first fault, be
it in the form of the text or in the data.

* **`Fault`** — why a document was refused.
* **`Reader`** — reads a part from the start of a text; `Reader.Consumes` says that it leaves less
  than it was given.
* **`value`**, **`entry`**, **`bracketed`** — readers of the parts of a document.
* **`library`** — these readers and the writers of `listDocument` and `mapDocument` as a
  `JsonLibrary`, with its words in `readWord`, `readList`, `readMap`, `writeWord`, `writeList` and
  `writeMap`. -/

namespace TaggedWord.JsonText

/-- **Why a text was refused.** -/
inductive Fault where
  /-- The text is no JSON. -/
  | malformed
  /-- A part of the text is JSON of the wrong kind or content. -/
  | data (e : DataError)
  deriving DecidableEq, Repr

/-- The text of a fault in the data. The unit value is written `null` here. -/
def dataMessage (e : DataError) : String := e.message "null"

/-- **Reads a part from the start of a text**: what was read, and what is left of the text. -/
abbrev Reader (α : Type) := List Char → Except Fault (α × List Char)

/-- A reader that leaves less than it was given. -/
def Reader.Consumes {α : Type} (r : Reader α) : Prop :=
  ∀ (s rest : List Char) (a : α), r s = .ok (a, rest) → rest.length < s.length

/-- What was found, or the fault of a text that has no such part. -/
def orMalformed {α : Type} : Option α → Except Fault α
  | some a => .ok a
  | none => .error .malformed

/-- `orMalformed o = .ok a` only for `o = some a`. -/
theorem orMalformed_eq_ok {α : Type} {o : Option α} {a : α} (h : orMalformed o = .ok a) :
    o = some a := by
  cases o <;> cases h
  rfl

/-- A reader that passes over white space first. -/
def spaced {α : Type} (part : Reader α) : Reader α := fun s => part (skipSpace s)

/-- `spaced part` consumes if `part` does: white space is never given back. -/
theorem spaced_consumes {α : Type} {part : Reader α} (h : part.Consumes) :
    (spaced part).Consumes :=
  fun s _ _ hs => Nat.lt_of_lt_of_le (h _ _ _ hs) (length_skipSpace_le s)

/-! ## Data -/

/-- **The datum at the start of a text** that does not start with white space. Of a list or a map
only the bracket is read. -/
def datum : Reader Datum
  | '"' :: s => do
    let (cs, rest) ← orMalformed (string? s)
    .ok (.text (String.ofList cs), rest)
  | '[' :: rest => .ok (.sequence, rest)
  | '{' :: rest => .ok (.mapping, rest)
  | 'n' :: 'u' :: 'l' :: 'l' :: rest => .ok (.unit, rest)
  | 't' :: 'r' :: 'u' :: 'e' :: rest => .ok (.boolean true, rest)
  | 'f' :: 'a' :: 'l' :: 's' :: 'e' :: rest => .ok (.boolean false, rest)
  | s => orMalformed (number? s)

/-- `datum` consumes, since each branch takes a character or calls a reader that does. -/
theorem datum_consumes : datum.Consumes := by
  intro s rest d h
  unfold datum at h
  split at h
  · cases hs : orMalformed (string? _) with
    | error e => rw [hs] at h; cases h
    | ok p =>
      rw [hs] at h
      cases h
      exact Nat.lt_succ_of_lt (length_lt_of_string? (orMalformed_eq_ok hs))
  · cases h
    exact Nat.lt_succ_self _
  · cases h
    exact Nat.lt_succ_self _
  · cases h
    simp only [List.length_cons]
    omega
  · cases h
    simp only [List.length_cons]
    omega
  · cases h
    simp only [List.length_cons]
    omega
  · exact length_lt_of_number? (orMalformed_eq_ok h)

/-- What the caller makes of a datum, or the fault in it. -/
def accepted {α : Type} (r : Except DataError α) : Except Fault α := r.mapError .data

/-! ## Parts of a document -/

section Parts

variable {α κ ν : Type} (take : Datum → Except DataError α)
  (takeKey : Datum → Except DataError κ) (takeValue : Datum → Except DataError ν)

/-- **A value**, after any white space. -/
def value : Reader α := spaced fun s => do
  let (d, rest) ← datum s
  let a ← accepted (take d)
  .ok (a, rest)

/-- `value take` reads at least the datum that it hands to `take`. -/
theorem value_consumes : (value take).Consumes := by
  refine spaced_consumes fun s rest a h => ?_
  cases hd : datum s with
  | error e => simp only [hd] at h; cases h
  | ok p =>
    simp only [hd] at h
    cases ha : accepted (take p.1) with
    | error e => simp only [bind, Except.bind, ha] at h; cases h
    | ok b =>
      simp only [bind, Except.bind, ha] at h
      cases h
      exact datum_consumes _ _ _ hd

/-- The value of an entry, behind a colon. -/
def entryValue : Reader ν := spaced fun
  | ':' :: rest => value takeValue rest
  | _ => .error .malformed

/-- `entryValue takeValue` reads at least the colon. -/
theorem entryValue_consumes : (entryValue takeValue).Consumes := by
  refine spaced_consumes fun s rest v h => ?_
  split at h
  · exact Nat.lt_succ_of_lt (value_consumes takeValue _ _ _ h)
  · cases h

/-- **A key and its value**, after any white space. The key is a string; it is handed over before
the colon is looked for. -/
def entry : Reader (κ × ν) := spaced fun
  | '"' :: s => do
    let (name, afterName) ← orMalformed (string? s)
    let key ← accepted (takeKey (.text (String.ofList name)))
    let (v, rest) ← entryValue takeValue afterName
    .ok ((key, v), rest)
  | _ => .error .malformed

/-- `entry takeKey takeValue` reads at least the key. -/
theorem entry_consumes : (entry takeKey takeValue).Consumes := by
  refine spaced_consumes fun s rest e h => ?_
  split at h
  · rename_i t
    cases hs : orMalformed (string? t) with
    | error e => simp only [hs] at h; cases h
    | ok p =>
      cases hk : accepted (takeKey (.text (String.ofList p.1))) with
      | error e => simp only [bind, Except.bind, hs, hk] at h; cases h
      | ok key =>
        cases hv : entryValue takeValue p.2 with
        | error e => simp only [bind, Except.bind, hs, hk, hv] at h; cases h
        | ok q =>
          simp only [bind, Except.bind, hs, hk, hv] at h
          cases h
          have l1 := length_lt_of_string? (orMalformed_eq_ok hs)
          have l2 := entryValue_consumes takeValue _ _ _ hv
          rw [List.length_cons]
          omega
  · cases h

end Parts

/-- **Parts with commas between them**, at least one, up to a closing bracket. -/
def separated {α : Type} (item : Reader α) (consumes : item.Consumes) (close : Char)
    (s : List Char) : Except Fault (List α × List Char) :=
  match hi : item s with
  | .error e => .error e
  | .ok (first, afterFirst) =>
    match hs : skipSpace afterFirst with
    | [] => .error .malformed
    | c :: rest =>
      have : rest.length < s.length := by
        have h1 := consumes _ _ _ hi
        have h2 := length_skipSpace_le afterFirst
        rw [hs, List.length_cons] at h2
        omega
      if c = close then .ok ([first], rest)
      else if c = ',' then do
        let (more, left) ← separated item consumes close rest
        .ok (first :: more, left)
      else .error .malformed
termination_by s.length

/-- What follows an opening bracket: the closing one, or parts with commas between them. -/
def closing {α : Type} (item : Reader α) (consumes : item.Consumes) (close : Char) :
    Reader (List α) := spaced fun
  | [] => .error .malformed
  | c :: rest => if c = close then .ok ([], rest) else separated item consumes close (c :: rest)

/-- **Parts in brackets**, after any white space. A datum of another kind is read to its end before
it is refused. -/
def bracketed {α : Type} (opening close : Char) (item : Reader α) (consumes : item.Consumes)
    (wanted : Wanted) : Reader (List α) := spaced fun
  | [] => .error .malformed
  | c :: rest =>
    if c = opening then closing item consumes close rest
    else do
      let (d, _) ← datum (c :: rest)
      .error (.data (.wrongKind d wanted))

/-! ## Documents -/

/-- **A whole document**: one part, with nothing but white space after it. -/
def document {α : Type} (part : Reader α) (s : String) : Except Fault α := do
  let (a, rest) ← part s.toList
  if (skipSpace rest).isEmpty then .ok a else .error .malformed

/-- **The library of these readers and writers.** -/
def library : JsonLibrary Fault where
  writeText := JsonLibrary.quoted
  writeList := listDocument
  writeMap := mapDocument
  readValue take := document (value take)
  readList take := document (bracketed '[' ']' (value take) (value_consumes take) .list)
  readMap takeKey takeValue insert start s := do
    let es ← document
      (bracketed '{' '}' (entry takeKey takeValue) (entry_consumes takeKey takeValue) .map) s
    .ok (es.foldl (fun m e => insert m e.1 e.2) start)

/-! ## Words -/

/-- **The document of a word.** -/
def writeWord (w : Word) : String := library.writeWord w

/-- **The document of a list of words.** -/
def writeList (ws : List Word) : String := library.writeWords ws

/-- **The document of a map of words.** -/
def writeMap (m : WordMap Word) : String := library.writeWordMap m

/-- **The word in a text.** -/
def readWord (s : String) : Except Fault Word := library.readWord s

/-- **The list of words in a text.** -/
def readList (s : String) : Except Fault (List Word) := library.readWords s

/-- **The map of words in a text.** -/
def readMap (s : String) : Except Fault (WordMap Word) := library.readWordMap s

end TaggedWord.JsonText
