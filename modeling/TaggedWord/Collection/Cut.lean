import TaggedWord.Word.Order

/-! # Cutting an ordered list at a word

The elements of an ordered collection are kept in a list in the order of the words that serve as
their keys. Every operation on such a list looks for the place of a key in it.

* **`Ascending`** — the order of such a list, strict in the values of the keys.
* **`Cut`** — what stands before the place of a key, at it, and after it.
* **`cutAt`** — finds the place.
* **`Cut.put`**, **`Cut.without`** — the list with an element put at the place where it was cut, and
  with none there; `Ascending.put` and `Ascending.without` say that both keep the order. -/

namespace TaggedWord

variable {α : Type}

/-- **The order of a list by its keys**: each key denotes a greater number than the keys before
it. -/
def Ascending (key : α → Word) (s : List α) : Prop :=
  s.Pairwise fun a b => (key a).value < (key b).value

instance (key : α → Word) (s : List α) : Decidable (Ascending key s) :=
  inferInstanceAs (Decidable (s.Pairwise _))

/-- **A list cut at a key.** -/
structure Cut (α : Type) where
  /-- The elements with lesser keys. -/
  below : List α
  /-- The element with an equal key, if there is one. -/
  found : Option α
  /-- The elements with greater keys. -/
  above : List α

namespace Cut

/-- The list with an element put at the place where it was cut. -/
def put (c : Cut α) (a : α) : List α := c.below ++ a :: c.above

/-- The list without the element at the place where it was cut. -/
def without (c : Cut α) : List α := c.below ++ c.above

end Cut

/-- **Cuts an ascending list at a key.** -/
def cutAt (key : α → Word) (x : Word) : List α → Cut α
  | [] => ⟨[], none, []⟩
  | a :: rest =>
    match (key a).compare x with
    | .lt =>
      let cut := cutAt key x rest
      { cut with below := a :: cut.below }
    | .eq => ⟨[], some a, rest⟩
    | .gt => ⟨[], none, a :: rest⟩

variable {key : α → Word} {x : Word} {s : List α}

@[simp] theorem cutAt_nil (key : α → Word) (x : Word) : cutAt key x [] = ⟨[], none, []⟩ := rfl

/-- The `below`, `found` and `above` of `cutAt key x s` make up `s`: nothing is lost. -/
theorem below_append_above_cutAt (key : α → Word) (x : Word) (s : List α) :
    (cutAt key x s).below ++ (cutAt key x s).found.toList ++ (cutAt key x s).above = s := by
  induction s with
  | nil => rfl
  | cons a rest ih =>
    unfold cutAt
    split
    · simpa using ih
    · simp
    · simp

/-! ## The keys of the parts -/

/-- The keys `below` a cut at `x` have values less than `x.value`. -/
theorem value_lt_of_mem_below {a : α} (ha : a ∈ (cutAt key x s).below) :
    (key a).value < x.value := by
  induction s with
  | nil => cases ha
  | cons b rest ih =>
    unfold cutAt at ha
    split at ha
    · rename_i hlt
      rcases List.mem_cons.mp ha with rfl | ha
      · exact (Word.compare_eq_lt_iff _ x).mp hlt
      · exact ih ha
    · cases ha
    · cases ha

/-- The key `found` by a cut at `x` has the value of `x`. -/
theorem value_eq_of_found (key : α → Word) {a : α} (ha : (cutAt key x s).found = some a) :
    (key a).value = x.value := by
  induction s with
  | nil => cases ha
  | cons b rest ih =>
    unfold cutAt at ha
    split at ha
    · exact ih ha
    · rename_i heq
      cases ha
      exact (Word.compare_eq_eq_iff _ x).mp heq
    · cases ha

/-- The keys `above` a cut of an ascending list at `x` have values greater than `x.value`. -/
theorem lt_value_of_mem_above (h : Ascending key s) {a : α} (ha : a ∈ (cutAt key x s).above) :
    x.value < (key a).value := by
  induction s with
  | nil => cases ha
  | cons b rest ih =>
    obtain ⟨hb, hrest⟩ := List.pairwise_cons.mp h
    unfold cutAt at ha
    split at ha
    · exact ih hrest ha
    · rename_i heq
      rw [← (Word.compare_eq_eq_iff _ x).mp heq]
      exact hb a ha
    · -- the list was not entered, and its first key is above `x` already
      rename_i hgt
      have hx := (Word.compare_eq_gt_iff _ x).mp hgt
      rcases List.mem_cons.mp ha with rfl | ha
      · exact hx
      · exact Int.lt_trans hx (hb a ha)

/-! ## What keeps the order -/

/-- The empty list is ascending. -/
theorem Ascending.nil (key : α → Word) : Ascending key [] := List.Pairwise.nil

/-- An ascending list stays so without its first element. -/
theorem Ascending.tail (h : Ascending key s) : Ascending key s.tail := List.Pairwise.tail h

/-- The list `without` the element of a key is a sublist. -/
theorem without_cutAt_sublist (key : α → Word) (x : Word) (s : List α) :
    (cutAt key x s).without.Sublist s := by
  have hsub : List.Sublist (cutAt key x s).without
      ((cutAt key x s).below ++ (cutAt key x s).found.toList ++ (cutAt key x s).above) :=
    (List.sublist_append_left _ _).append (List.Sublist.refl _)
  rwa [below_append_above_cutAt] at hsub

/-- **`Cut.without` keeps the order**: leaving out the element of a key. -/
theorem Ascending.without (h : Ascending key s) (x : Word) :
    Ascending key (cutAt key x s).without :=
  List.Pairwise.sublist (without_cutAt_sublist key x s) h

/-- **`Cut.put` keeps the order**: putting an element at the place of its own key. -/
theorem Ascending.put (h : Ascending key s) {a : α} (ha : (key a).value = x.value) :
    Ascending key ((cutAt key x s).put a) := by
  obtain ⟨hbelow, habove, hacross⟩ := List.pairwise_append.mp (h.without x)
  refine List.pairwise_append.mpr ⟨hbelow, List.pairwise_cons.mpr ⟨fun b hb => ?_, habove⟩, ?_⟩
  · rw [ha]
    exact lt_value_of_mem_above h hb
  · intro b hb c hc
    rcases List.mem_cons.mp hc with rfl | hc
    · rw [ha]
      exact value_lt_of_mem_below hb
    · exact hacross b hb c hc

end TaggedWord
