import TaggedWord.JsonText.Reader

/-! # The laws of a JSON library

What `JsonText.library` writes for texts that need no escapes it reads back: `string?` stops at the
closing quote, `value` and `entry` at the end of their part, and `bracketed` takes the parts between
brackets one by one. So it satisfies the laws that are relied on for lists and maps of texts
(`lawfulLists_library`, `lawfulMaps_library`).

* **`Reader.TakesBack`** — a reader that takes what was written for a part, whatever stands behind
  it.
* **`value_takesBack`**, **`entry_takesBack`** — `value` and `entry` do.
* **`document_bracketed_enclosed`** — so does `bracketed` with the parts of `enclosed`. -/

namespace TaggedWord.JsonText

open JsonLibrary

/-! ## Parts of a document -/

/-- **The reader `item` takes what was `written` for `b`**, whatever stands behind it. The written
form starts with a quote, so it is neither passed over as white space nor taken for a bracket. -/
structure Reader.TakesBack {β : Type} (item : Reader β) (written : String) (b : β) : Prop where
  starts_quoted : ∃ t, written.toList = '"' :: t
  reads_written : ∀ rest, item (written.toList ++ rest) = .ok (b, rest)

/-- `skipSpace` stops at a character that is no space. -/
theorem skipSpace_cons {c : Char} (h : isSpace c = false) (s : List Char) :
    skipSpace (c :: s) = c :: s :=
  List.dropWhile_cons_of_neg (by simp [h])

/-- `spaced part` is `part` where no space stands in front. -/
theorem spaced_cons {α : Type} (part : Reader α) {c : Char} (h : isSpace c = false)
    (s : List Char) : spaced part (c :: s) = part (c :: s) := by
  rw [spaced, skipSpace_cons h]

/-! ## Strings -/

/-- `string?` reads plain characters as they are, up to the closing quote. -/
theorem string?_append_quote {cs : List Char} (h : ∀ c ∈ cs, IsPlain c) (rest : List Char) :
    string? (cs ++ '"' :: rest) = some (cs, rest) := by
  induction cs with
  | nil => rw [List.nil_append, string?, if_pos rfl]
  | cons c cs ih =>
    obtain ⟨hquote, hslash, hcontrol⟩ := h c List.mem_cons_self
    rw [List.cons_append, string?, if_neg hquote, if_neg hslash, if_neg hcontrol,
      ih fun d hd => h d (List.mem_cons_of_mem c hd)]
    rfl

/-- The characters of `quoted s`, with more text behind them. -/
theorem toList_quoted_append (s : String) (rest : List Char) :
    (quoted s).toList ++ rest = '"' :: (s.toList ++ '"' :: rest) := by
  simp [quoted]

/-- `accepted` is what the caller made of the datum. -/
theorem accepted_ok {α : Type} (a : α) : accepted (.ok a) = .ok a := rfl

section Parts

variable {α κ ν : Type} {take : Datum → Except DataError α} {takeKey : Datum → Except DataError κ}
  {takeValue : Datum → Except DataError ν}

/-- **`value take` takes back a quoted text** as what `take` makes of the text. -/
theorem value_takesBack {s : String} {a : α} (hs : IsPlainText s) (ha : take (.text s) = .ok a) :
    (value take).TakesBack (quoted s) a where
  starts_quoted := ⟨_, by simpa using toList_quoted_append s []⟩
  reads_written rest := by
    rw [toList_quoted_append, value, spaced_cons _ (by decide)]
    simp only [datum, string?_append_quote hs, orMalformed, String.ofList_toList, ha, accepted_ok,
      bind, Except.bind]

/-- **`entry takeKey takeValue` takes back a quoted entry** as what is made of its key and its
value. -/
theorem entry_takesBack {s t : String} {k : κ} {v : ν} (hs : IsPlainText s)
    (hk : takeKey (.text s) = .ok k) (ht : IsPlainText t) (hv : takeValue (.text t) = .ok v) :
    (entry takeKey takeValue).TakesBack (quotedEntry s t) (k, v) where
  starts_quoted := ⟨_, by simpa [quotedEntry] using toList_quoted_append s _⟩
  reads_written rest := by
    have hentry : (quotedEntry s t).toList ++ rest
        = '"' :: (s.toList ++ '"' :: ':' :: ((quoted t).toList ++ rest)) := by
      simp [quotedEntry, quoted]
    rw [hentry, entry, spaced_cons _ (by decide)]
    simp only [string?_append_quote hs, orMalformed, String.ofList_toList, hk, accepted_ok,
      entryValue, bind, Except.bind]
    rw [spaced_cons _ (by decide)]
    simp only [(value_takesBack ht hv).reads_written]

end Parts

/-! ## Parts between brackets -/

section Bracketed

variable {α β : Type} {item : Reader β} (consumes : item.Consumes) {written : α → String}
  {image : α → β}

/-- One step of reading parts: a part is read, and the character behind it tells what follows. -/
theorem separated_cons {s rest : List Char} {b : β} {c close : Char}
    (h : item s = .ok (b, c :: rest)) (hc : isSpace c = false) :
    separated item consumes close s =
      if c = close then .ok ([b], rest)
      else if c = ',' then do
        let (more, left) ← separated item consumes close rest
        .ok (b :: more, left)
      else .error .malformed := by
  rw [separated]
  split
  · rename_i e he
    rw [h] at he
    cases he
  · rename_i first afterFirst hfirst
    rw [h] at hfirst
    cases hfirst
    split
    · rename_i hs
      rw [skipSpace_cons hc] at hs
      cases hs
    · rename_i d left hs
      rw [skipSpace_cons hc] at hs
      cases hs
      rfl

/-- The characters of parts with commas between them. -/
def joined (written : α → String) (as : List α) : List Char :=
  [','].intercalate (as.map fun a => (written a).toList)

/-- A comma stands behind the first of several parts. -/
theorem joined_cons_cons (written : α → String) (a b : α) (as : List α) :
    joined written (a :: b :: as) = (written a).toList ++ ',' :: joined written (b :: as) := by
  simp [joined, List.intercalate_cons_cons]

/-- One part stands alone. -/
theorem joined_singleton (written : α → String) (a : α) :
    joined written [a] = (written a).toList := by
  simp [joined]

/-- **Written parts with commas between them are read back** up to the closing bracket. -/
theorem separated_joined {close : Char} (hclose : isSpace close = false ∧ close ≠ ',') (a : α)
    (as : List α) (hitem : ∀ b ∈ a :: as, item.TakesBack (written b) (image b))
    (rest : List Char) :
    separated item consumes close (joined written (a :: as) ++ close :: rest)
      = .ok ((a :: as).map image, rest) := by
  induction as generalizing a with
  | nil =>
    have hread := (hitem a List.mem_cons_self).reads_written (close :: rest)
    rw [joined_singleton, separated_cons consumes hread hclose.1, if_pos rfl]
    rfl
  | cons b as ih =>
    -- the first part ends at a comma, and the others are read from behind it
    have hread := (hitem a List.mem_cons_self).reads_written
      (',' :: (joined written (b :: as) ++ close :: rest))
    rw [joined_cons_cons, List.append_assoc, List.cons_append,
      separated_cons consumes hread (by decide), if_neg (Ne.symm hclose.2), if_pos rfl,
      ih b fun c hc => hitem c (List.mem_cons_of_mem a hc)]
    rfl

/-- Written parts with commas between them start with a quote, as the first part does. -/
theorem starts_quoted_joined {a : α} (as : List α)
    (hstart : ∃ t, (written a).toList = '"' :: t) :
    ∃ t, joined written (a :: as) = '"' :: t := by
  obtain ⟨t, ht⟩ := hstart
  cases as with
  | nil => exact ⟨t, by rw [joined_singleton, ht]⟩
  | cons b as => exact ⟨t ++ ',' :: joined written (b :: as), by rw [joined_cons_cons, ht]; rfl⟩

/-- **Written parts in brackets are read back.** -/
theorem bracketed_joined {opening close : Char} (hopening : isSpace opening = false)
    (hclose : isSpace close = false ∧ close ≠ ',' ∧ close ≠ '"') (wanted : Wanted) (as : List α)
    (hitem : ∀ a ∈ as, item.TakesBack (written a) (image a)) (rest : List Char) :
    bracketed opening close item consumes wanted
        (opening :: (joined written as ++ close :: rest))
      = .ok (as.map image, rest) := by
  rw [bracketed, spaced_cons _ hopening]
  simp only [if_pos, closing]
  cases as with
  | nil =>
    rw [joined, List.map_nil, List.intercalate_nil, List.nil_append, spaced_cons _ hclose.1]
    simp only [if_pos, List.map_nil]
  | cons a as =>
    -- the first part starts with a quote, which neither is white space nor closes the bracket
    obtain ⟨t, ht⟩ := starts_quoted_joined as (hitem a List.mem_cons_self).starts_quoted
    have hparts := separated_joined consumes ⟨hclose.1, hclose.2.1⟩ a as hitem rest
    rw [ht, List.cons_append] at hparts ⊢
    rw [spaced_cons _ (by decide)]
    simp only [if_neg (Ne.symm hclose.2.2)]
    exact hparts

/-- **A document of written parts in brackets is read back.** -/
theorem document_bracketed_enclosed {opening close : Char} (hopening : isSpace opening = false)
    (hclose : isSpace close = false ∧ close ≠ ',' ∧ close ≠ '"') (wanted : Wanted) (as : List α)
    (hitem : ∀ a ∈ as, item.TakesBack (written a) (image a)) :
    document (bracketed opening close item consumes wanted)
        (enclosed (String.singleton opening) (String.singleton close) (as.map written))
      = .ok (as.map image) := by
  have hchars : (enclosed (String.singleton opening) (String.singleton close)
      (as.map written)).toList = opening :: (joined written as ++ [close]) := by
    simp [enclosed, joined, String.toList_intercalate, Function.comp_def]
  rw [document, hchars, bracketed_joined consumes hopening hclose wanted as hitem []]
  rfl

end Bracketed

/-! ## Laws -/

/-- **`library` satisfies the laws of lists.** -/
theorem lawfulLists_library : library.LawfulLists where
  writeText_eq _ _ := rfl
  readValue_quoted take s a hs ha := by
    have hread := (value_takesBack hs ha).reads_written []
    rw [List.append_nil] at hread
    simp only [library, document, hread, bind, Except.bind]
    rfl
  writeList_eq _ _ := rfl
  readList_enclosed take made ss h :=
    document_bracketed_enclosed (value_consumes take) (by decide) (by decide) .list ss
      fun s hs => value_takesBack (h s hs).1 (h s hs).2

/-- **`library` satisfies the laws of maps.** -/
theorem lawfulMaps_library : library.LawfulMaps where
  toLawfulTexts := lawfulLists_library.toLawfulTexts
  writeMap_eq _ _ _ := rfl
  readMap_enclosed takeKey takeValue insert start madeKey madeValue es h := by
    have hread : document (bracketed '{' '}' (entry takeKey takeValue)
        (entry_consumes takeKey takeValue) .map)
        (enclosed "\x7b" "\x7d" (es.map fun e => quotedEntry e.1 e.2))
        = .ok (es.map fun e => (madeKey e.1, madeValue e.2)) :=
      document_bracketed_enclosed (entry_consumes takeKey takeValue) (by decide) (by decide) .map es
        fun e he => entry_takesBack (h e he).1.1 (h e he).1.2 (h e he).2.1 (h e he).2.2
    simp only [library, hread, bind, Except.bind, List.foldl_map]

end TaggedWord.JsonText
