import TaggedWord.Collection.Cut

/-! # Ordered maps with words as keys

A map holds at most one entry for each number, in the order of the numbers.

* **`WordMap`** — the entries as a list, with the order of their keys.
* **`WordMap.insert`** — sets the value of a key; a key that is already there is kept as it is.
* **`WordMap.ofList`** — the map after inserting pairs in order. -/

namespace TaggedWord

/-- **A map from words**, kept as a list of entries in strictly ascending order of the keys, so that
no two keys are equal. -/
structure WordMap (α : Type) where
  /-- The entries, from the least key to the greatest. -/
  toList : List (Word × α)
  /-- Each key denotes a greater number than the keys before it. -/
  ascending : Ascending Prod.fst toList
  deriving DecidableEq, Repr

namespace WordMap

variable {α : Type}

/-- Maps with the same entries in `toList` are the same. -/
@[ext] theorem ext {m n : WordMap α} (h : m.toList = n.toList) : m = n := by
  cases m
  cases n
  cases h
  rfl

/-- The map without entries. -/
def empty : WordMap α := ⟨[], .nil Prod.fst⟩

@[simp] theorem toList_empty : (empty : WordMap α).toList = [] := rfl

/-- A map cut at a key. -/
def cut (m : WordMap α) (k : Word) : Cut (Word × α) := cutAt Prod.fst k m.toList

/-- The key under which a map holds the number of `k`: the key equal to `k`, or else `k`. -/
def storedKey (m : WordMap α) (k : Word) : Word := ((m.cut k).found.map Prod.fst).getD k

/-- `m.storedKey k` denotes the number of `k`. -/
theorem value_storedKey (m : WordMap α) (k : Word) : (m.storedKey k).value = k.value := by
  rw [storedKey]
  cases h : (m.cut k).found with
  | none => rfl
  | some e => exact value_eq_of_found Prod.fst h

/-- **Sets the value of a key.** Of two equal keys the first one stays. -/
def insert (m : WordMap α) (k : Word) (v : α) : WordMap α :=
  ⟨(m.cut k).put (m.storedKey k, v), m.ascending.put (m.value_storedKey k)⟩

@[simp] theorem toList_insert (m : WordMap α) (k : Word) (v : α) :
    (m.insert k v).toList = (m.cut k).put (m.storedKey k, v) := rfl

/-- **The map of a list of pairs**, inserted in order. -/
def ofList (entries : List (Word × α)) : WordMap α :=
  entries.foldl (fun m e => m.insert e.1 e.2) empty

end WordMap

end TaggedWord
