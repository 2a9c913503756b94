import TaggedWord.Collection.Sorting
import TaggedWord.Proofs.Comparison
import TaggedWord.Proofs.OrderedLists
import Mathlib.Data.List.Nodup

/-! # Sorted, deduplicated and hashed words

A list of words can hold one number several times, under either tag. Sorting keeps the words of one
number in their order, so the first of each run in the sorted list is the first of its number in the
list itself. A hash table takes words for the same if they give the same bytes and are equal, and
again these are the words of one number. So both ways of leaving out repetitions keep the same words
(`sort_dedup_distinct_agree`).

* **`filter_sort`** — sorting leaves the words of each number as they were.
* **`HoldsFirsts`** — the lists that hold the first word of each number and no other, which are the
  same up to order (`HoldsFirsts.perm`).
* **`min_max_eq`** — the lesser and the greater of two words are these two words. -/

namespace TaggedWord.Words

/-! ## Sorting -/

/-- `sort` loses no word and makes up none. -/
theorem sort_perm (ws : List Word) : (sort ws).Perm ws := List.mergeSort_perm ws _

/-- `(a.compare b).isLE ↔ a.value ≤ b.value`: sorting tests the numbers denoted. -/
theorem isLE_compare_iff (a b : Word) : (a.compare b).isLE = true ↔ a.value ≤ b.value :=
  Word.le_iff_value_le a b

/-- The test of `sort` is transitive. -/
theorem isLE_compare_trans (a b c : Word) (hab : (a.compare b).isLE = true)
    (hbc : (b.compare c).isLE = true) : (a.compare c).isLE = true := by
  rw [isLE_compare_iff] at hab hbc ⊢
  exact Int.le_trans hab hbc

/-- The test of `sort` is total. -/
theorem isLE_compare_total (a b : Word) : ((a.compare b).isLE || (b.compare a).isLE) = true := by
  rw [Bool.or_eq_true_iff, isLE_compare_iff, isLE_compare_iff]
  exact Int.le_total a.value b.value

/-- **A sorted list does not descend** in the values of its words. -/
theorem pairwise_sort (ws : List Word) : (sort ws).Pairwise fun a b => a.value ≤ b.value :=
  (List.pairwise_mergeSort isLE_compare_trans isLE_compare_total ws).imp fun h =>
    (isLE_compare_iff _ _).mp h

/-- **`sort` is stable**: the words of each number stay in the order in which they came. -/
theorem filter_sort (ws : List Word) (z : Int) :
    (sort ws).filter (fun a => a.value = z) = ws.filter fun a => a.value = z := by
  -- the words of one number are in order already, so the sort leaves them a sublist
  have horder : (ws.filter fun a => a.value = z).Pairwise fun a b => (a.compare b).isLE = true := by
    refine List.pairwise_of_forall_mem_list fun a ha b hb => ?_
    have hza : a.value = z := by simpa using (List.mem_filter.mp ha).2
    have hzb : b.value = z := by simpa using (List.mem_filter.mp hb).2
    rw [isLE_compare_iff, hza, hzb]
  have hsub : (ws.filter fun a => a.value = z).Sublist (sort ws) :=
    List.sublist_mergeSort isLE_compare_trans isLE_compare_total horder List.filter_sublist
  have hfilter := hsub.filter fun a => a.value = z
  rw [List.filter_filter] at hfilter
  simp only [Bool.and_self] at hfilter
  exact (hfilter.eq_of_length ((sort_perm ws).filter _).length_eq.symm).symm

/-- `elementAt? id z` is the same before and after sorting. -/
theorem elementAt?_sort (ws : List Word) (z : Int) :
    elementAt? id z (sort ws) = elementAt? id z ws := by
  have hfilter := congrArg List.head? (filter_sort ws z)
  rwa [List.head?_filter, List.head?_filter] at hfilter

/-! ## First words -/

/-- **The lists of first words**: for each number that `ws` holds they have the first word that
denotes it, and nothing else. -/
structure HoldsFirsts (s ws : List Word) : Prop where
  nodup_values : (s.map Word.value).Nodup
  elementAt?_eq : ∀ z, elementAt? id z s = elementAt? id z ws

/-- `w ∈ s` iff `w` is the first word of its number in `ws`. -/
theorem HoldsFirsts.mem_iff {s ws : List Word} (h : HoldsFirsts s ws) (w : Word) :
    w ∈ s ↔ elementAt? id w.value ws = some w := by
  rw [← h.elementAt?_eq]
  constructor
  · intro hw
    have hfound : (elementAt? id w.value s).isSome := isSome_elementAt?_iff.mpr ⟨w, hw, rfl⟩
    obtain ⟨v, hv⟩ := Option.isSome_iff_exists.mp hfound
    -- the word found denotes the same number, and there is only one
    have hvalue : v.value = w.value := by simpa using List.find?_some hv
    rw [hv, List.inj_on_of_nodup_map h.nodup_values (List.mem_of_find?_eq_some hv) hw hvalue]
  · intro hw
    exact List.mem_of_find?_eq_some hw

/-- **Two lists that hold the firsts of `ws`** differ in their order alone. -/
theorem HoldsFirsts.perm {s t ws : List Word} (hs : HoldsFirsts s ws) (ht : HoldsFirsts t ws) :
    s.Perm t := by
  rw [List.perm_ext_iff_of_nodup hs.nodup_values.of_map ht.nodup_values.of_map]
  intro w
  rw [hs.mem_iff, ht.mem_iff]

/-! ## Runs -/

/-- The loop of `dedup`: what has been collected stands before the words that are still to come. -/
theorem eraseRepsBy_loop_eq (a : Word) (s acc : List Word) :
    List.eraseRepsBy.loop Word.eqv a s acc = acc.reverse ++ dedup (a :: s) := by
  induction s generalizing a acc with
  | nil => simp [dedup, List.eraseRepsBy, List.eraseRepsBy.loop]
  | cons b s ih =>
    simp only [dedup, List.eraseRepsBy, List.eraseRepsBy.loop]
    split
    · rw [ih, ih, List.reverse_nil, List.nil_append]
    · rw [ih, ih b [a]]
      simp

/-- `dedup (a :: b :: s)` leaves out `b` if it is equal to the word `a` kept before it. -/
theorem dedup_cons_cons (a b : Word) (s : List Word) :
    dedup (a :: b :: s) = if a.value = b.value then dedup (a :: s) else a :: dedup (b :: s) := by
  have heqv := Word.eqv_iff_value_eq a b
  simp only [dedup, List.eraseRepsBy, List.eraseRepsBy.loop]
  split
  · rename_i h
    rw [if_pos (heqv.mp h)]
  · rename_i h
    rw [if_neg (fun hvalue => by rw [heqv.mpr hvalue] at h; cases h), eraseRepsBy_loop_eq]
    rfl

/-- `elementAt? id z` is the same after `dedup`, in any list. -/
theorem elementAt?_dedup (s : List Word) (z : Int) :
    elementAt? id z (dedup s) = elementAt? id z s := by
  cases s with
  | nil => rfl
  | cons a s =>
    -- the induction is on what follows the word kept last
    induction s generalizing a with
    | nil => rfl
    | cons b s ih =>
      rw [dedup_cons_cons]
      by_cases hab : a.value = b.value
      · rw [if_pos hab, ih, elementAt?_cons, elementAt?_cons, elementAt?_cons]
        by_cases hz : a.value = z
        · rw [id, if_pos hz, if_pos hz]
        · rw [id, id, if_neg hz, if_neg hz, if_neg (hab ▸ hz)]
      · rw [if_neg hab, elementAt?_cons, ih, elementAt?_cons z a (b :: s)]

/-- `dedup s` denotes no number that `s` does not. -/
theorem exists_value_eq_of_mem_dedup {s : List Word} {c : Word} (hc : c ∈ dedup s) :
    ∃ d ∈ s, d.value = c.value := by
  have hfound : (elementAt? id c.value (dedup s)).isSome :=
    isSome_elementAt?_iff.mpr ⟨c, hc, rfl⟩
  rw [elementAt?_dedup] at hfound
  exact isSome_elementAt?_iff.mp hfound

/-- **Without repetitions a list that does not descend ascends strictly**:
`Ascending id (dedup s)`. -/
theorem ascending_dedup {s : List Word} (h : s.Pairwise fun a b => a.value ≤ b.value) :
    Ascending id (dedup s) := by
  cases s with
  | nil => exact List.Pairwise.nil
  | cons a s =>
    induction s generalizing a with
    | nil => exact List.pairwise_singleton _ a
    | cons b s ih =>
      obtain ⟨ha, hb⟩ := List.pairwise_cons.mp h
      obtain ⟨hbs, hs⟩ := List.pairwise_cons.mp hb
      rw [dedup_cons_cons]
      split
      · refine ih a (List.pairwise_cons.mpr ⟨?_, hs⟩)
        exact fun c hc => ha c (List.mem_cons_of_mem b hc)
      · rename_i hab
        refine List.pairwise_cons.mpr ⟨fun c hc => ?_, ih b hb⟩
        -- the word after a run is above it, and nothing behind that word is below it
        obtain ⟨d, hd, hdc⟩ := exists_value_eq_of_mem_dedup hc
        have hlt : a.value < b.value := lt_of_le_of_ne (ha b List.mem_cons_self) hab
        have hle : b.value ≤ d.value := by
          rcases List.mem_cons.mp hd with rfl | hd
          · exact Int.le_refl _
          · exact hbs d hd
        exact Int.lt_of_lt_of_le hlt (hdc ▸ hle)

/-- `dedup (sort ws)` ascends strictly. -/
theorem ascending_dedup_sort (ws : List Word) : Ascending id (dedup (sort ws)) :=
  ascending_dedup (pairwise_sort ws)

/-- `dedup (sort ws)` holds the first word of each number. -/
theorem holdsFirsts_dedup_sort (ws : List Word) : HoldsFirsts (dedup (sort ws)) ws where
  nodup_values :=
    List.pairwise_map.mpr ((ascending_dedup_sort ws).imp fun hlt => Int.ne_of_lt hlt)
  elementAt?_eq z := by rw [elementAt?_dedup, elementAt?_sort]

/-- Of the two fives the one that came first is kept, and the two words with every bit set, which
are `-1` and `2^64 - 1`, stand at the two ends. -/
example : dedup (sort [⟨5, .unsigned⟩, .maxUnsignedValue, ⟨5, .signed⟩,
      ⟨0xFFFFFFFFFFFFFFFF, .signed⟩])
    = [⟨0xFFFFFFFFFFFFFFFF, .signed⟩, ⟨5, .unsigned⟩, .maxUnsignedValue] := by cbv

/-! ## Hashing -/

/-- **A hash table takes the words of one number for the same**: `sameSlot` tests the bytes and
equality, and both are those of the values. -/
theorem sameSlot_iff (a b : Word) : sameSlot a b = true ↔ a.value = b.value := by
  rw [sameSlot, Bool.and_eq_true_iff, beq_iff_eq, Word.hashBytes_inj, Word.eqv_iff_value_eq,
    and_self_iff]

/-- `distinct (a :: s)` holds `a`, and no other word of its number. -/
theorem distinct_cons (a : Word) (s : List Word) :
    distinct (a :: s) = a :: distinct (s.filter fun b => b.value ≠ a.value) := by
  have hslot : (fun b => decide (sameSlot b a = false)) = fun b => decide (b.value ≠ a.value) := by
    funext b
    rw [decide_eq_decide, ← Bool.not_eq_true, sameSlot_iff]
  rw [distinct, List.eraseDupsBy_cons, hslot, distinct]

/-- **Induction over a list by its numbers**: behind the first word only the words of other numbers
are left. -/
theorem distinct_induction {P : List Word → Prop} (nil : P [])
    (cons : ∀ a s, P (s.filter fun b => b.value ≠ a.value) → P (a :: s)) (ws : List Word) :
    P ws := by
  induction hn : ws.length using Nat.strong_induction_on generalizing ws with
  | h n ih =>
    cases ws with
    | nil => exact nil
    | cons a s =>
      have hlt : (s.filter fun b => b.value ≠ a.value).length < n := by
        rw [← hn, List.length_cons]
        exact Nat.lt_succ_of_le (List.length_filter_le _ s)
      exact cons a s (ih _ hlt _ rfl)

/-- `elementAt? id z` is the same without the words of another number `y`. -/
theorem elementAt?_filter_ne (s : List Word) (y z : Int) :
    elementAt? id z (s.filter fun b => b.value ≠ y)
      = if z = y then none else elementAt? id z s := by
  by_cases hz : z = y
  · rw [if_pos hz, elementAt?_eq_none_iff]
    intro b hb
    rw [hz]
    simpa using (List.mem_filter.mp hb).2
  · rw [if_neg hz, elementAt?, List.find?_filter, elementAt?]
    congr 1
    funext b
    by_cases hb : b.value = z
    · simp [hb, hz]
    · simp [hb]

/-- **A hash table holds the first word of each number**: `HoldsFirsts (distinct ws) ws`. -/
theorem holdsFirsts_distinct (ws : List Word) : HoldsFirsts (distinct ws) ws := by
  induction ws using distinct_induction with
  | nil => exact ⟨List.nodup_nil, fun _ => rfl⟩
  | cons a s ih =>
    rw [distinct_cons]
    refine ⟨List.nodup_cons.mpr ⟨fun ha => ?_, ih.nodup_values⟩, fun z => ?_⟩
    · -- the words that are left denote other numbers than the first one
      obtain ⟨c, hc, hca⟩ := List.mem_map.mp ha
      have hfound := (ih.mem_iff c).mp hc
      rw [elementAt?_filter_ne, if_pos hca] at hfound
      cases hfound
    · rw [elementAt?_cons, ih.elementAt?_eq, elementAt?_filter_ne, elementAt?_cons]
      by_cases hz : a.value = z
      · rw [id, if_pos hz, if_pos hz]
      · rw [id, if_neg hz, if_neg hz, if_neg (Ne.symm hz)]

/-! ## Two words -/

/-- **`min a b` and `max a b` are these two words**, in the order in which they came if they are
equal. -/
theorem min_max_eq (a b : Word) :
    (min a b, max a b) = if a.value ≤ b.value then (a, b) else (b, a) := by
  have hmin : min a b = if a ≤ b then a else b := rfl
  have hmax : max a b = if a ≤ b then b else a := rfl
  simp only [hmin, hmax, Word.le_iff_value_le]
  split
  · rfl
  · rfl

/-- **Sorting, leaving out repetitions and hashing agree.** `sort ws` has the words of `ws` with
their tags, does not descend, and keeps the words of each number in their order. `dedup` of it
ascends strictly and has for each number the word that came first. `distinct ws` holds the same
words, so it counts as many. `min` and `max` of two words are these words with their tags, also if
both denote the same number. -/
theorem sort_dedup_distinct_agree :
    (∀ ws : List Word,
      (sort ws).Perm ws ∧
      ((sort ws).Pairwise fun a b => a.value ≤ b.value) ∧
      (∀ z : Int, ((sort ws).filter fun a => a.value = z) = ws.filter fun a => a.value = z) ∧
      ((dedup (sort ws)).Pairwise fun a b => a.value < b.value) ∧
      (∀ w : Word, w ∈ dedup (sort ws) ↔ (ws.find? fun a => a.value = w.value) = some w) ∧
      (dedup (sort ws)).Perm (distinct ws) ∧
      (dedup (sort ws)).length = (distinct ws).length) ∧
    ∀ a b : Word, (min a b, max a b) = if a.value ≤ b.value then (a, b) else (b, a) := by
  refine ⟨fun ws => ?_, min_max_eq⟩
  have hsame := (holdsFirsts_dedup_sort ws).perm (holdsFirsts_distinct ws)
  exact ⟨sort_perm ws, pairwise_sort ws, filter_sort ws, ascending_dedup_sort ws,
    (holdsFirsts_dedup_sort ws).mem_iff, hsame, hsame.length_eq⟩

end TaggedWord.Words
