import TaggedWord.Collection.WordMap
import TaggedWord.Proofs.OrderedLists
import Mathlib.Data.List.Induction

/-! # Contents of an ordered map

A map is built by inserting pairs in order. Under each number it holds the first key that came with
the number and the last value (`entryAt?_ofList`).

* **`WordMap.entryAt?`** — the entry of a number; `entryAt?_insert` says what an insertion does to
  it. -/

namespace TaggedWord.WordMap

variable {α : Type}

/-- **The entry of a number**, if the map has one. -/
def entryAt? (m : WordMap α) (z : Int) : Option (Word × α) := elementAt? Prod.fst z m.toList

/-- `m.entryAt? z = some e` exactly if `e` is an entry of `m` whose key denotes `z`. -/
theorem entryAt?_eq_some_iff {m : WordMap α} {z : Int} {e : Word × α} :
    m.entryAt? z = some e ↔ e ∈ m.toList ∧ e.1.value = z :=
  elementAt?_eq_some_iff m.ascending

/-! ## Insertion -/

/-- `m.storedKey k` is the key of the entry of `k.value`, or `k` itself if there is none. -/
theorem storedKey_eq (m : WordMap α) (k : Word) :
    m.storedKey k = ((m.entryAt? k.value).map Prod.fst).getD k := by
  rw [storedKey, cut, cutAt_eq_filter m.ascending, entryAt?]

/-- **An insertion sets the value of one number**: `(m.insert k v).entryAt?` has `v` for `k.value`,
under the key that is already there, and is `m.entryAt?` elsewhere. -/
theorem entryAt?_insert (m : WordMap α) (k : Word) (v : α) (z : Int) :
    (m.insert k v).entryAt? z = if z = k.value then some (m.storedKey k, v) else m.entryAt? z := by
  rw [entryAt?, toList_insert]
  exact elementAt?_put m.ascending (m.value_storedKey k) z

/-! ## Maps of lists -/

/-- `ofList (entries ++ [e])` is `ofList entries` with `e` inserted last. -/
theorem ofList_concat (entries : List (Word × α)) (e : Word × α) :
    ofList (entries ++ [e]) = (ofList entries).insert e.1 e.2 := by
  rw [ofList, List.foldl_append, ofList]
  rfl

/-- **The map of a list of pairs**: `(ofList entries).entryAt? z` has the first key that came with
`z` and the last value. -/
theorem entryAt?_ofList (entries : List (Word × α)) (z : Int) :
    (ofList entries).entryAt? z =
      (elementAt? Prod.fst z entries).bind fun oldest =>
        (elementAt? Prod.fst z entries.reverse).map fun newest => (oldest.1, newest.2) := by
  induction entries using List.reverseRecOn with
  | nil => rfl
  | append_singleton entries e ih =>
    rw [ofList_concat, entryAt?_insert, List.reverse_concat, elementAt?_append, elementAt?_cons,
      elementAt?_cons]
    split
    · rename_i hz
      rw [if_pos hz.symm, if_pos hz.symm, storedKey_eq, ← hz, ih]
      cases holdest : elementAt? Prod.fst z entries with
      | none => rfl
      | some oldest =>
        -- a number that is found from the start is found from the end as well
        obtain ⟨newest, hnewest⟩ :
            ∃ newest, elementAt? Prod.fst z entries.reverse = some newest := by
          have hsome : (elementAt? Prod.fst z entries).isSome := by rw [holdest]; rfl
          apply Option.isSome_iff_exists.mp
          simpa only [isSome_elementAt?_iff, List.mem_reverse] using hsome
        rw [hnewest]
        rfl
    · rename_i hz
      rw [if_neg (Ne.symm hz), if_neg (Ne.symm hz), ih, elementAt?_nil, Option.or_none]

/-- Every key and every value of `ofList entries` comes from `entries`. -/
theorem exists_of_mem_ofList {entries : List (Word × α)} {e : Word × α}
    (h : e ∈ (ofList entries).toList) :
    (∃ oldest ∈ entries, oldest.1 = e.1) ∧ ∃ newest ∈ entries, newest.2 = e.2 := by
  have he := entryAt?_eq_some_iff.mpr ⟨h, rfl⟩
  rw [entryAt?_ofList, Option.bind_eq_some_iff] at he
  obtain ⟨oldest, holdest, he⟩ := he
  obtain ⟨newest, hnewest, rfl⟩ := Option.map_eq_some_iff.mp he
  exact ⟨⟨oldest, List.mem_of_find?_eq_some holdest, rfl⟩,
    newest, List.mem_reverse.mp (List.mem_of_find?_eq_some hnewest), rfl⟩

/-- `(ofList entries).toList = entries` for a list that ascends already. -/
theorem toList_ofList {entries : List (Word × α)} (h : Ascending Prod.fst entries) :
    (ofList entries).toList = entries := by
  refine Ascending.ext (ofList entries).ascending h fun z => ?_
  change (ofList entries).entryAt? z = elementAt? Prod.fst z entries
  rw [entryAt?_ofList]
  cases he : elementAt? Prod.fst z entries with
  | none => rfl
  | some e =>
    obtain ⟨hmem, hz⟩ := (elementAt?_eq_some_iff h).mp he
    -- there is one entry of the number, so it is the last one too
    have hlast : elementAt? Prod.fst z entries.reverse = some e :=
      (find?_reverse_eq_some_iff h).mpr ⟨hmem, by simpa using hz, fun b _ hb => by
        rw [hz]
        exact Int.le_of_eq (by simpa using hb)⟩
    rw [hlast]
    rfl

end TaggedWord.WordMap
