import TaggedWord.Collection.WordSet
import TaggedWord.Proofs.OrderedLists
import Mathlib.Data.Finmap
import Mathlib.Data.Finset.Max

/-! # Contents of an ordered set

A set of words holds at most one word for each number. Seen from outside it is a finite map from
numbers to the words that are stored for them, with their tags: an insertion leaves a word that is
there, a replacement puts the new one in its place, and what is found, taken or removed is the word
that is stored. The set and the map give the same answers in every run (`run_eq_run_contents`).

* **`WordSet.Contents`** — finite maps from numbers to words, with the commands on them.
* **`WordSet.contents`** — the map of a set.
* **`perform_contents`** — what one command does to a set it does to its map. -/

namespace TaggedWord.WordSet

/-! ## Commands on a map -/

/-- **What a set holds**: for some numbers a word that denotes them. -/
abbrev Contents := Finmap fun _ : Int => Word

namespace Contents

/-- The least number that is held. -/
def least? (c : Contents) : Option Int := if h : c.keys.Nonempty then some (c.keys.min' h) else none

/-- The greatest number that is held. -/
def greatest? (c : Contents) : Option Int :=
  if h : c.keys.Nonempty then some (c.keys.max' h) else none

/-- **Carries out a command on a map.** An insertion keeps the word of a number that is held, and a
replacement puts the new word in its place. -/
def perform (c : Contents) : Command → Reply × Contents
  | .insert x => if x.value ∈ c then (.flag false, c) else (.flag true, c.insert x.value x)
  | .replace x => (.element (c.lookup x.value), c.insert x.value x)
  | .remove x => (.flag (x.value ∈ c), c.erase x.value)
  | .take x => (.element (c.lookup x.value), c.erase x.value)
  | .contains x => (.flag (x.value ∈ c), c)
  | .get x => (.element (c.lookup x.value), c)
  | .below x => (.count (c.keys.filter (· < x.value)).card, c)
  | .first => (.element (c.least?.bind fun z => c.lookup z), c)
  | .last => (.element (c.greatest?.bind fun z => c.lookup z), c)
  | .popFirst =>
    match c.least? with
    | none => (.element none, c)
    | some z => (.element (c.lookup z), c.erase z)
  | .clear => (.done, ∅)

/-- **Carries out commands in order**: the answer to each and the map after it. -/
def run (c : Contents) : List Command → List (Reply × Contents)
  | [] => []
  | cmd :: rest =>
    let r := c.perform cmd
    r :: run r.2 rest

/-- `c.least? = some z` iff `z` is held and no lesser number is. -/
theorem least?_eq_some_iff {c : Contents} {z : Int} :
    c.least? = some z ↔ z ∈ c ∧ ∀ y ∈ c, z ≤ y := by
  rw [least?]
  by_cases hne : c.keys.Nonempty
  · rw [dif_pos hne, Option.some.injEq, Finset.min'_eq_iff]
    simp only [Finmap.mem_keys]
  · rw [dif_neg hne]
    constructor
    · intro h
      cases h
    · rintro ⟨hz, -⟩
      exact absurd ⟨z, Finmap.mem_keys.mpr hz⟩ hne

/-- `c.greatest? = some z` iff `z` is held and no greater number is. -/
theorem greatest?_eq_some_iff {c : Contents} {z : Int} :
    c.greatest? = some z ↔ z ∈ c ∧ ∀ y ∈ c, y ≤ z := by
  rw [greatest?]
  by_cases hne : c.keys.Nonempty
  · rw [dif_pos hne, Option.some.injEq, Finset.max'_eq_iff]
    simp only [Finmap.mem_keys]
  · rw [dif_neg hne]
    constructor
    · intro h
      cases h
    · rintro ⟨hz, -⟩
      exact absurd ⟨z, Finmap.mem_keys.mpr hz⟩ hne

/-- `(c.insert z w).lookup y` is `w` for `z`, and as before elsewhere. -/
theorem lookup_insert_eq_ite (c : Contents) (z : Int) (w : Word) (y : Int) :
    (c.insert z w).lookup y = if y = z then some w else c.lookup y := by
  by_cases hy : y = z
  · rw [if_pos hy, hy, Finmap.lookup_insert]
  · rw [if_neg hy, Finmap.lookup_insert_of_ne c hy]

/-- `(c.erase z).lookup y` is nothing for `z`, and as before elsewhere. -/
theorem lookup_erase_eq_ite (c : Contents) (z y : Int) :
    (c.erase z).lookup y = if y = z then none else c.lookup y := by
  by_cases hy : y = z
  · rw [if_pos hy, hy, Finmap.lookup_erase]
  · rw [if_neg hy, Finmap.lookup_erase_ne hy]

end Contents

/-! ## The map of a set -/

/-- **The map of a set**: each element under its number. -/
def contents (s : WordSet) : Contents :=
  (s.toList.map fun w => (⟨w.value, w⟩ : (_ : Int) × Word)).toFinmap

@[simp] theorem contents_empty : empty.contents = ∅ := rfl

/-- What is held for a number is the element of this number. -/
@[simp] theorem lookup_contents (s : WordSet) (z : Int) :
    s.contents.lookup z = elementAt? id z s.toList := by
  rw [contents, Finmap.dlookup_list_toFinmap]
  induction s.toList with
  | nil => rfl
  | cons w rest ih =>
    rw [List.map_cons, elementAt?_cons]
    by_cases hz : (id w).value = z
    · rw [if_pos hz, ← hz]
      exact List.dlookup_cons_eq _ _ _
    · rw [if_neg hz, List.dlookup_cons_ne _ _ (Ne.symm hz), ih]

/-- `z ∈ s.contents` iff some element of `s` denotes `z`. -/
theorem mem_contents_iff (s : WordSet) (z : Int) :
    z ∈ s.contents ↔ ∃ w ∈ s.toList, w.value = z := by
  rw [← Finmap.lookup_isSome, lookup_contents, isSome_elementAt?_iff]
  rfl

/-- `s.contents.keys` are the numbers of the elements. -/
theorem keys_contents (s : WordSet) : s.contents.keys = (s.toList.map Word.value).toFinset := by
  ext z
  rw [Finmap.mem_keys, mem_contents_iff, List.mem_toFinset, List.mem_map]

/-! ## Looking -/

/-- `w ∈ s.toList` iff `s.contents` holds `w` for the number of `w`. -/
theorem mem_toList_iff (s : WordSet) (w : Word) :
    w ∈ s.toList ↔ s.contents.lookup w.value = some w := by
  rw [lookup_contents, elementAt?_eq_some_iff s.ascending]
  simp

/-- No two elements of `s.toList` are equal. -/
theorem pairwise_not_eqv (s : WordSet) : s.toList.Pairwise fun a b => a.eqv b = false := by
  refine s.ascending.imp ?_
  intro a b hlt
  rw [Bool.eq_false_iff, Ne, Word.eqv_iff_value_eq]
  exact Int.ne_of_lt hlt

/-- `s.get? x` finds what the map holds for the number of `x`. -/
theorem get?_eq_lookup (s : WordSet) (x : Word) : s.get? x = s.contents.lookup x.value := by
  rw [lookup_contents, get?, cut, cutAt_eq_filter s.ascending]

/-- `s.contains x` tells whether the map holds a word for the number of `x`. -/
theorem contains_eq_decide (s : WordSet) (x : Word) :
    s.contains x = decide (x.value ∈ s.contents) := by
  rw [contains, get?_eq_lookup, Bool.eq_iff_iff, decide_eq_true_iff, Finmap.lookup_isSome]

/-- `s.countBelow x` counts the elements less than `x` by their numbers. -/
theorem countBelow_eq_card (s : WordSet) (x : Word) :
    s.countBelow x = (s.contents.keys.filter (· < x.value)).card := by
  have hnodup : (s.toList.map Word.value).Nodup :=
    List.pairwise_map.mpr (s.ascending.imp fun hlt => Int.ne_of_lt hlt)
  have hkeys : s.contents.keys.filter (· < x.value)
      = ((s.toList.map Word.value).filter (· < x.value)).toFinset := by
    ext z
    simp [keys_contents]
  rw [hkeys, List.toFinset_card_of_nodup (hnodup.filter _), List.filter_map, List.length_map,
    countBelow, cut, cutAt_eq_filter s.ascending]
  rfl

/-- `s.contents.least?` is the number of the first element. -/
theorem least?_contents (s : WordSet) : s.contents.least? = s.first?.map Word.value := by
  have hascending := s.ascending
  rw [first?]
  cases hs : s.toList with
  | nil =>
    rw [Contents.least?, keys_contents, hs]
    rfl
  | cons a rest =>
    rw [List.head?_cons, Option.map_some, Contents.least?_eq_some_iff]
    simp only [mem_contents_iff, hs]
    refine ⟨⟨a, List.mem_cons_self, rfl⟩, ?_⟩
    rintro y ⟨w, hw, rfl⟩
    -- every other element stands behind the first one
    rw [hs] at hascending
    rcases List.mem_cons.mp hw with rfl | hw
    · exact Int.le_refl _
    · exact Int.le_of_lt ((List.pairwise_cons.mp hascending).1 w hw)

/-- `s.contents.greatest?` is the number of the last element. -/
theorem greatest?_contents (s : WordSet) : s.contents.greatest? = s.last?.map Word.value := by
  have hascending := s.ascending
  rw [last?]
  rcases s.toList.eq_nil_or_concat' with hs | ⟨front, a, hs⟩
  · rw [Contents.greatest?, keys_contents, hs]
    rfl
  · rw [hs, List.getLast?_concat, Option.map_some, Contents.greatest?_eq_some_iff]
    simp only [mem_contents_iff, hs]
    refine ⟨⟨a, List.mem_concat_self, rfl⟩, ?_⟩
    rintro y ⟨w, hw, rfl⟩
    -- every other element stands before the last one
    rw [hs] at hascending
    rcases List.mem_append.mp hw with hw | hw
    · have hacross := (List.pairwise_append.mp hascending).2.2
      exact Int.le_of_lt (hacross w hw a (List.mem_singleton_self a))
    · rw [List.mem_singleton.mp hw]

/-- `s.first?` is the word of the least number. -/
theorem first?_eq_lookup_least? (s : WordSet) :
    s.first? = s.contents.least?.bind fun z => s.contents.lookup z := by
  rw [least?_contents]
  cases hfirst : s.first? with
  | none => rfl
  | some a => exact ((s.mem_toList_iff a).mp (List.mem_of_head? hfirst)).symm

/-- `s.last?` is the word of the greatest number. -/
theorem last?_eq_lookup_greatest? (s : WordSet) :
    s.last? = s.contents.greatest?.bind fun z => s.contents.lookup z := by
  rw [greatest?_contents]
  cases hlast : s.last? with
  | none => rfl
  | some a => exact ((s.mem_toList_iff a).mp (List.mem_of_getLast? hlast)).symm

/-! ## Changing -/

/-- `s.insert x = s` if an element of `s` is equal to `x`. -/
theorem insert_of_get?_eq_some {s : WordSet} {x w : Word} (hget : s.get? x = some w) :
    s.insert x = s := by
  have hparts := below_append_above_cutAt id x s.toList
  have hfound : (cutAt id x s.toList).found = some w := hget
  rw [hfound, Option.toList_some, List.append_assoc, List.singleton_append] at hparts
  apply WordSet.ext
  rw [toList_insert, storedFor, hget, Option.getD_some]
  exact hparts

/-- `s.insert x = s.replace x` if no element of `s` is equal to `x`. -/
theorem insert_of_get?_eq_none {s : WordSet} {x : Word} (hget : s.get? x = none) :
    s.insert x = s.replace x := by
  apply WordSet.ext
  rw [toList_insert, storedFor, hget, Option.getD_none, toList_replace]

/-- `s.eraseFirst = s.erase a` for the first element `a`. -/
theorem eraseFirst_of_first?_eq_some {s : WordSet} {a : Word} (hfirst : s.first? = some a) :
    s.eraseFirst = s.erase a := by
  obtain ⟨rest, hs⟩ : ∃ rest, s.toList = a :: rest := List.head?_eq_some_iff.mp hfirst
  have hself : a.compare a = .eq := (Word.compare_eq_eq_iff a a).mpr rfl
  apply WordSet.ext
  rw [toList_eraseFirst, toList_erase, cut, hs, cutAt, id, hself, List.tail_cons, Cut.without,
    List.nil_append]

/-- **A replacement** puts the new word in the place of the one that is there:
`(s.replace x).contents = s.contents.insert x.value x`. -/
theorem contents_replace (s : WordSet) (x : Word) :
    (s.replace x).contents = s.contents.insert x.value x := by
  apply Finmap.ext_lookup
  intro z
  rw [Contents.lookup_insert_eq_ite, lookup_contents, lookup_contents]
  exact elementAt?_put s.ascending rfl z

/-- **An insertion** leaves the word that is there: `(s.insert x).contents` has a new word only for
a number that is not held. -/
theorem contents_insert (s : WordSet) (x : Word) :
    (s.insert x).contents
      = if x.value ∈ s.contents then s.contents else s.contents.insert x.value x := by
  have hmem : x.value ∈ s.contents ↔ (s.get? x).isSome := by
    rw [get?_eq_lookup, Finmap.lookup_isSome]
  cases hget : s.get? x with
  | none => rw [insert_of_get?_eq_none hget, contents_replace, if_neg (by simp [hmem, hget])]
  | some w => rw [insert_of_get?_eq_some hget, if_pos (by simp [hmem, hget])]

/-- **A removal** leaves the number of the word without a word:
`(s.erase x).contents = s.contents.erase x.value`. -/
theorem contents_erase (s : WordSet) (x : Word) :
    (s.erase x).contents = s.contents.erase x.value := by
  apply Finmap.ext_lookup
  intro z
  rw [Contents.lookup_erase_eq_ite, lookup_contents, lookup_contents]
  exact elementAt?_without s.ascending x z

/-! ## Commands -/

/-- **Every command does to the set what it does to its map**: `s.perform c` and
`s.contents.perform c` have the same answer, and end in a set and its map. -/
theorem perform_contents (s : WordSet) (c : Command) :
    s.contents.perform c = ((s.perform c).1, (s.perform c).2.contents) := by
  cases c with
  | insert x =>
    rw [Contents.perform, WordSet.perform, contains_eq_decide, contents_insert]
    by_cases hmem : x.value ∈ s.contents <;> simp [hmem]
  | replace x => rw [Contents.perform, WordSet.perform, get?_eq_lookup, contents_replace]
  | remove x => rw [Contents.perform, WordSet.perform, contains_eq_decide, contents_erase]
  | take x => rw [Contents.perform, WordSet.perform, get?_eq_lookup, contents_erase]
  | contains x => rw [Contents.perform, WordSet.perform, contains_eq_decide]
  | get x => rw [Contents.perform, WordSet.perform, get?_eq_lookup]
  | below x => rw [Contents.perform, WordSet.perform, countBelow_eq_card]
  | first => rw [Contents.perform, WordSet.perform, first?_eq_lookup_least?]
  | last => rw [Contents.perform, WordSet.perform, last?_eq_lookup_greatest?]
  | popFirst =>
    rw [Contents.perform, WordSet.perform, least?_contents]
    cases hfirst : s.first? with
    | none =>
      -- there is no first element, so none is removed
      have hs : s.toList = [] := List.head?_eq_none_iff.mp hfirst
      have hsame : s.eraseFirst = s := WordSet.ext (by rw [toList_eraseFirst, hs, List.tail_nil])
      rw [hsame]
      rfl
    | some a =>
      -- the first element is taken, and it is held under its own number
      have ha := (s.mem_toList_iff a).mp (List.mem_of_head? hfirst)
      rw [eraseFirst_of_first?_eq_some hfirst, contents_erase]
      simp only [Option.map_some, ha]
  | clear => rfl

/-! ## Runs -/

/-- **A run of a set is a run of its map**: `s.contents.run cmds` is `s.run cmds` with the map of
each set. -/
theorem run_contents (s : WordSet) (cmds : List Command) :
    s.contents.run cmds = (s.run cmds).map fun r => (r.1, r.2.contents) := by
  -- the induction is on the commands, over every set that they can start from
  induction cmds generalizing s with
  | nil => rfl
  | cons c rest ih =>
    rw [Contents.run, perform_contents, run, List.map_cons, ih (s.perform c).2]

/-- **Ordered sets over any run.** From `empty` on, every run of commands gives the answers of the
same run on a finite map from numbers to words, and after each command the set holds what the map
holds: the elements of `toList` are the words of the map with their tags, they ascend strictly in
their numbers, and no two of them are equal. -/
theorem run_eq_run_contents (cmds : List Command) :
    (empty.run cmds).map (fun r => (r.1, r.2.contents)) = Contents.run ∅ cmds ∧
    ∀ r ∈ empty.run cmds,
      (r.2.toList.Pairwise fun a b => a.value < b.value) ∧
      (r.2.toList.Pairwise fun a b => a.eqv b = false) ∧
      ∀ w, w ∈ r.2.toList ↔ r.2.contents.lookup w.value = some w := by
  constructor
  · rw [← contents_empty, run_contents]
  · intro r _
    exact ⟨r.2.ascending, r.2.pairwise_not_eqv, r.2.mem_toList_iff⟩

/-- Five comes in both tags: the second insertion leaves the signed five, and the replacement
answers it and puts the unsigned one in its place. Of the two words with every bit set the signed
one, which is `-1`, stands before them and the unsigned one behind them. -/
theorem run_eq_run_contents_five :
    ∃ r ∈ empty.run [.insert ⟨5, .signed⟩, .insert .maxUnsignedValue, .insert ⟨5, .unsigned⟩,
        .insert ⟨0xFFFFFFFFFFFFFFFF, .signed⟩, .replace ⟨5, .unsigned⟩],
      r.1 = .element (some ⟨5, .signed⟩) ∧
      r.2.toList = [⟨0xFFFFFFFFFFFFFFFF, .signed⟩, ⟨5, .unsigned⟩, .maxUnsignedValue] ∧
      r.2.contents.lookup 5 = some ⟨5, .unsigned⟩ := by
  have hmem : (Reply.element (some ⟨5, .signed⟩), (⟨[⟨0xFFFFFFFFFFFFFFFF, .signed⟩,
      ⟨5, .unsigned⟩, .maxUnsignedValue], by decide⟩ : WordSet)) ∈
      empty.run [.insert ⟨5, .signed⟩, .insert .maxUnsignedValue, .insert ⟨5, .unsigned⟩,
        .insert ⟨0xFFFFFFFFFFFFFFFF, .signed⟩, .replace ⟨5, .unsigned⟩] := by decide
  obtain ⟨-, -, hheld⟩ := (run_eq_run_contents _).2 _ hmem
  exact ⟨_, hmem, rfl, rfl, (hheld ⟨5, .unsigned⟩).mp (by decide)⟩

end TaggedWord.WordSet
