import TaggedWord.Collection.Cut
import Mathlib.Data.List.Perm.Basic
import Mathlib.Order.Basic

/-! # Lists in the order of their keys

Ordered collections keep their elements in a list that ascends strictly in the numbers of the keys,
so a number finds at most one element. Cutting such a list at a key splits it into the elements
below, at and above the number of the key (`cutAt_eq_filter`), and what is put there or left out
changes the element of one number only (`elementAt?_put`, `elementAt?_without`).

* **`elementAt?`** — the element of a number; `Ascending.ext` says that these elements determine
  the list. -/

namespace TaggedWord

variable {α : Type}

/-- **The element of a number**: the first one whose key denotes it, if there is one. -/
def elementAt? (key : α → Word) (z : Int) (s : List α) : Option α :=
  s.find? fun a => (key a).value = z

variable {key : α → Word} {s : List α}

/-! ## Looking -/

@[simp] theorem elementAt?_nil (z : Int) : elementAt? key z [] = none := rfl

/-- `elementAt? key z (a :: s)` is `a` if its key denotes `z`. -/
theorem elementAt?_cons (z : Int) (a : α) (s : List α) :
    elementAt? key z (a :: s) = if (key a).value = z then some a else elementAt? key z s := by
  rw [elementAt?, List.find?_cons, elementAt?]
  split <;> simp_all

/-- `elementAt? key z (s ++ t)` looks into `s` first. -/
theorem elementAt?_append (z : Int) (s t : List α) :
    elementAt? key z (s ++ t) = (elementAt? key z s).or (elementAt? key z t) :=
  List.find?_append

/-- `elementAt? key z s = none` iff no key of `s` denotes `z`. -/
theorem elementAt?_eq_none_iff {z : Int} :
    elementAt? key z s = none ↔ ∀ a ∈ s, (key a).value ≠ z := by
  simp [elementAt?]

/-- `elementAt? key z s` is some element iff a key of `s` denotes `z`. -/
theorem isSome_elementAt?_iff {z : Int} :
    (elementAt? key z s).isSome ↔ ∃ a ∈ s, (key a).value = z := by
  simp [elementAt?]

/-- `elementAt? key z s = some a` iff `a` is an element of the ascending `s` whose key denotes `z`:
there is no second one. -/
theorem elementAt?_eq_some_iff (h : Ascending key s) {z : Int} {a : α} :
    elementAt? key z s = some a ↔ a ∈ s ∧ (key a).value = z := by
  constructor
  · intro ha
    exact ⟨List.mem_of_find?_eq_some ha, by simpa using List.find?_some ha⟩
  · rintro ⟨ha, rfl⟩
    induction s with
    | nil => cases ha
    | cons b rest ih =>
      obtain ⟨hb, hrest⟩ := List.pairwise_cons.mp h
      rcases List.mem_cons.mp ha with rfl | ha
      · rw [elementAt?_cons, if_pos rfl]
      · -- the key of an earlier element denotes a lesser number
        rw [elementAt?_cons, if_neg (Int.ne_of_lt (hb a ha))]
        exact ih hrest ha

/-- **Ascending lists have the same `elementAt? key z`** if they have the same elements whose key
denotes `z`. -/
theorem elementAt?_congr {t : List α} (hs : Ascending key s) (ht : Ascending key t) {z : Int}
    (h : ∀ a, (key a).value = z → (a ∈ s ↔ a ∈ t)) : elementAt? key z s = elementAt? key z t := by
  apply Option.ext
  intro a
  rw [elementAt?_eq_some_iff hs, elementAt?_eq_some_iff ht]
  exact and_congr_left (h a)

/-- The elements of an ascending list whose key denotes `z` are `elementAt? key z s`, if there is
one. -/
theorem filter_value_eq (h : Ascending key s) (z : Int) :
    s.filter (fun a => (key a).value = z) = (elementAt? key z s).toList := by
  induction s with
  | nil => rfl
  | cons a rest ih =>
    obtain ⟨ha, hrest⟩ := List.pairwise_cons.mp h
    by_cases hz : (key a).value = z
    · have hnone : elementAt? key z rest = none :=
        elementAt?_eq_none_iff.mpr fun b hb => by have := ha b hb; omega
      rw [List.filter_cons_of_pos (by simpa using hz), ih hrest, hnone, elementAt?_cons, if_pos hz]
      rfl
    · rw [List.filter_cons_of_neg (by simpa using hz), ih hrest, elementAt?_cons, if_neg hz]

/-- **Ascending lists with the same `elementAt?` are the same.** -/
theorem Ascending.ext {t : List α} (hs : Ascending key s) (ht : Ascending key t)
    (h : ∀ z, elementAt? key z s = elementAt? key z t) : s = t := by
  have hmem : ∀ a, a ∈ s ↔ a ∈ t := fun a => by
    have hsa := elementAt?_eq_some_iff hs (z := (key a).value) (a := a)
    have hta := elementAt?_eq_some_iff ht (z := (key a).value) (a := a)
    rw [h] at hsa
    simpa using hsa.symm.trans hta
  have hnodup : ∀ {u : List α}, Ascending key u → u.Nodup := fun hu =>
    hu.imp fun hlt heq => by rw [heq] at hlt; exact Int.lt_irrefl _ hlt
  refine List.Perm.eq_of_pairwise (fun a b _ _ hab hba => ?_) hs ht
    ((List.perm_ext_iff_of_nodup (hnodup hs) (hnodup ht)).mpr hmem)
  exact absurd hab (Int.lt_asymm hba)

/-- `s.reverse.find?` finds the element with the greatest key among those that are looked for. -/
theorem find?_reverse_eq_some_iff (h : Ascending key s) {p : α → Bool} {a : α} :
    s.reverse.find? p = some a ↔
      a ∈ s ∧ p a = true ∧ ∀ b ∈ s, p b = true → (key b).value ≤ (key a).value := by
  induction s with
  | nil => simp
  | cons b rest ih =>
    obtain ⟨hb, hrest⟩ := List.pairwise_cons.mp h
    rw [List.reverse_cons, List.find?_append, Option.or_eq_some_iff, ih hrest,
      List.find?_eq_none, List.find?_singleton]
    constructor
    · rintro (⟨ha, hpa, hmax⟩ | ⟨hnone, hself⟩)
      · -- the first element has a lesser key than the one found behind it
        refine ⟨List.mem_cons_of_mem b ha, hpa, List.forall_mem_cons.mpr ⟨fun _ => ?_, hmax⟩⟩
        exact Int.le_of_lt (hb a ha)
      · split at hself
        · rename_i hpb
          cases hself
          refine ⟨List.mem_cons_self, hpb, List.forall_mem_cons.mpr ⟨fun _ => Int.le_refl _, ?_⟩⟩
          exact fun c hc hpc => absurd hpc (hnone c (List.mem_reverse.mpr hc))
        · cases hself
    · rintro ⟨ha, hpa, hmax⟩
      rcases List.mem_cons.mp ha with rfl | ha
      · refine .inr ⟨fun c hc hpc => ?_, by rw [if_pos hpa]⟩
        have hlt := hb c (List.mem_reverse.mp hc)
        have hle := hmax c (List.mem_cons_of_mem a (List.mem_reverse.mp hc)) hpc
        omega
      · exact .inl ⟨ha, hpa, fun c hc => hmax c (List.mem_cons_of_mem b hc)⟩

/-! ## Cutting -/

/-- **The parts of an ascending list** in `cutAt key x s` are its elements with lesser keys, the
element with an equal key, and the elements with greater keys. -/
theorem cutAt_eq_filter (h : Ascending key s) (x : Word) :
    cutAt key x s = ⟨s.filter fun a => (key a).value < x.value, elementAt? key x.value s,
      s.filter fun a => x.value < (key a).value⟩ := by
  induction s with
  | nil => rfl
  | cons a rest ih =>
    obtain ⟨ha, hrest⟩ := List.pairwise_cons.mp h
    -- the keys behind the place of the cut are greater than the key cut at
    have hbehind : x.value ≤ (key a).value → ∀ b ∈ rest, x.value < (key b).value := fun hle b hb =>
      Int.lt_of_le_of_lt hle (ha b hb)
    have hbelow : x.value ≤ (key a).value →
        rest.filter (fun b => (key b).value < x.value) = [] := fun hle =>
      List.filter_eq_nil_iff.mpr fun b hb => by have := hbehind hle b hb; simp; omega
    have habove : x.value ≤ (key a).value →
        rest.filter (fun b => x.value < (key b).value) = rest := fun hle =>
      List.filter_eq_self.mpr fun b hb => by simpa using hbehind hle b hb
    rw [cutAt]
    split
    · rename_i hlt
      rw [Word.compare_eq_lt_iff] at hlt
      rw [ih hrest]
      simp [elementAt?_cons, hlt, Int.ne_of_lt hlt, Int.le_of_lt hlt]
    · rename_i heq
      rw [Word.compare_eq_eq_iff] at heq
      have hle : x.value ≤ (key a).value := Int.le_of_eq heq.symm
      simp [elementAt?_cons, heq, hbelow hle, habove hle]
    · rename_i hgt
      rw [Word.compare_eq_gt_iff] at hgt
      have hle : x.value ≤ (key a).value := Int.le_of_lt hgt
      have hnone : elementAt? key x.value rest = none :=
        elementAt?_eq_none_iff.mpr fun b hb => Int.ne_of_gt (hbehind hle b hb)
      rw [elementAt?_cons, if_neg (Int.ne_of_gt hgt), hnone,
        List.filter_cons_of_neg (by simpa using hle), hbelow hle,
        List.filter_cons_of_pos (by simpa using hgt), habove hle]

/-- The elements of `(cutAt key x s).without` are those of `s` with other keys. -/
theorem mem_without_cutAt_iff (h : Ascending key s) {x : Word} {b : α} :
    b ∈ (cutAt key x s).without ↔ b ∈ s ∧ (key b).value ≠ x.value := by
  rw [Cut.without, cutAt_eq_filter h, List.mem_append, List.mem_filter, List.mem_filter,
    decide_eq_true_iff, decide_eq_true_iff]
  constructor
  · rintro (⟨hb, hlt⟩ | ⟨hb, hlt⟩)
    · exact ⟨hb, Int.ne_of_lt hlt⟩
    · exact ⟨hb, Int.ne_of_gt hlt⟩
  · rintro ⟨hb, hne⟩
    rcases Int.lt_or_gt_of_ne hne with hlt | hgt
    · exact .inl ⟨hb, hlt⟩
    · exact .inr ⟨hb, hgt⟩

/-- The elements of `(cutAt key x s).put a` are `a` and those of `s` with other keys. -/
theorem mem_put_cutAt_iff (h : Ascending key s) {x : Word} {a b : α} :
    b ∈ (cutAt key x s).put a ↔ b = a ∨ b ∈ s ∧ (key b).value ≠ x.value := by
  rw [← mem_without_cutAt_iff h, Cut.put, Cut.without, List.mem_append, List.mem_cons,
    List.mem_append]
  exact or_left_comm

/-- `(cutAt key x s).put a` has `a` for the number of its own key, and is as before elsewhere. -/
theorem elementAt?_put (h : Ascending key s) {x : Word} {a : α} (ha : (key a).value = x.value)
    (z : Int) :
    elementAt? key z ((cutAt key x s).put a)
      = if z = x.value then some a else elementAt? key z s := by
  split
  · rename_i hz
    exact (elementAt?_eq_some_iff (h.put ha)).mpr
      ⟨(mem_put_cutAt_iff h).mpr (.inl rfl), ha.trans hz.symm⟩
  · rename_i hz
    refine elementAt?_congr (h.put ha) h fun b hbz => ?_
    rw [mem_put_cutAt_iff h]
    constructor
    · rintro (rfl | ⟨hb, -⟩)
      · exact absurd (hbz.symm.trans ha) hz
      · exact hb
    · exact fun hb => .inr ⟨hb, by rwa [hbz]⟩

/-- `(cutAt key x s).without` has nothing for the number of `x`, and is as before elsewhere. -/
theorem elementAt?_without (h : Ascending key s) (x : Word) (z : Int) :
    elementAt? key z (cutAt key x s).without
      = if z = x.value then none else elementAt? key z s := by
  split
  · rename_i hz
    refine elementAt?_eq_none_iff.mpr fun b hb => ?_
    rw [hz]
    exact ((mem_without_cutAt_iff h).mp hb).2
  · rename_i hz
    refine elementAt?_congr (h.without x) h fun b hbz => ?_
    rw [mem_without_cutAt_iff h, and_iff_left (by rwa [hbz])]

end TaggedWord
