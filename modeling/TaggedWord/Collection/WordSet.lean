import TaggedWord.Collection.Cut

/-! # Ordered sets of words

A set holds at most one word for each number, in the order of the numbers. Which of several equal
words it holds, and so with which tag, is seen from outside.

* **`WordSet`** — the elements as a list, with its order.
* **`WordSet.insert`**, **`WordSet.replace`**, **`WordSet.erase`** — changes of a set, each with the
  order of its result; an insertion keeps an equal element that is already there, a replacement does
  not.
* **`WordSet.Command`**, **`WordSet.perform`**, **`WordSet.run`** — the operations as data, with the
  answers that they give. -/

namespace TaggedWord

/-- **A set of words**, kept as a list in strictly ascending order, so that no two elements are
equal. -/
structure WordSet where
  /-- The elements, from the least to the greatest. -/
  toList : List Word
  /-- Each element denotes a greater number than the elements before it. -/
  ascending : Ascending id toList
  deriving DecidableEq, Repr

namespace WordSet

/-- Sets with the same elements in `toList` are the same. -/
@[ext] theorem ext {s t : WordSet} (h : s.toList = t.toList) : s = t := by
  cases s
  cases t
  cases h
  rfl

/-- The set without elements. -/
def empty : WordSet := ⟨[], .nil id⟩

@[simp] theorem toList_empty : empty.toList = [] := rfl

/-- A set cut at a word. -/
def cut (s : WordSet) (x : Word) : Cut Word := cutAt id x s.toList

/-! ## Looking -/

/-- **The element equal to a word**, as it is stored. -/
def get? (s : WordSet) (x : Word) : Option Word := (s.cut x).found

/-- The word under which a set holds the number of `x`: the element equal to `x`, or else `x`. -/
def storedFor (s : WordSet) (x : Word) : Word := (s.get? x).getD x

/-- `s.storedFor x` denotes the number of `x`. -/
theorem value_storedFor (s : WordSet) (x : Word) : (s.storedFor x).value = x.value := by
  rw [storedFor]
  cases h : s.get? x with
  | none => rfl
  | some w => exact value_eq_of_found id h

/-- Whether an element is equal to a word. -/
def contains (s : WordSet) (x : Word) : Bool := (s.get? x).isSome

/-- The number of elements less than a word. -/
def countBelow (s : WordSet) (x : Word) : Nat := (s.cut x).below.length

/-- The least element. -/
def first? (s : WordSet) : Option Word := s.toList.head?

/-- The greatest element. -/
def last? (s : WordSet) : Option Word := s.toList.getLast?

/-! ## Changing -/

/-- **Adds a word** unless an equal element is there, which then stays as it is. -/
def insert (s : WordSet) (x : Word) : WordSet :=
  ⟨(s.cut x).put (s.storedFor x), s.ascending.put (s.value_storedFor x)⟩

@[simp] theorem toList_insert (s : WordSet) (x : Word) :
    (s.insert x).toList = (s.cut x).put (s.storedFor x) := rfl

/-- **Puts a word into the set** in the place of an equal element, if there is one. -/
def replace (s : WordSet) (x : Word) : WordSet := ⟨(s.cut x).put x, s.ascending.put rfl⟩

@[simp] theorem toList_replace (s : WordSet) (x : Word) :
    (s.replace x).toList = (s.cut x).put x := rfl

/-- **Removes the element equal to a word.** -/
def erase (s : WordSet) (x : Word) : WordSet := ⟨(s.cut x).without, s.ascending.without x⟩

@[simp] theorem toList_erase (s : WordSet) (x : Word) :
    (s.erase x).toList = (s.cut x).without := rfl

/-- Removes the least element. -/
def eraseFirst (s : WordSet) : WordSet := ⟨s.toList.tail, s.ascending.tail⟩

@[simp] theorem toList_eraseFirst (s : WordSet) : s.eraseFirst.toList = s.toList.tail := rfl

/-! ## Commands -/

/-- **The operations on a set.** -/
inductive Command where
  | insert (x : Word)
  | replace (x : Word)
  | remove (x : Word)
  | take (x : Word)
  | contains (x : Word)
  | get (x : Word)
  | below (x : Word)
  | first
  | last
  | popFirst
  | clear
  deriving DecidableEq, Repr

/-- **What an operation answers.** -/
inductive Reply where
  /-- Whether the set has changed, or whether it holds an element. -/
  | flag (b : Bool)
  /-- A stored element, if there is one. -/
  | element (w : Option Word)
  | count (n : Nat)
  | done
  deriving DecidableEq, Repr

/-- **Carries out a command**: the answer and the set after it. -/
def perform (s : WordSet) : Command → Reply × WordSet
  | .insert x => (.flag (!s.contains x), s.insert x)
  | .replace x => (.element (s.get? x), s.replace x)
  | .remove x => (.flag (s.contains x), s.erase x)
  | .take x => (.element (s.get? x), s.erase x)
  | .contains x => (.flag (s.contains x), s)
  | .get x => (.element (s.get? x), s)
  | .below x => (.count (s.countBelow x), s)
  | .first => (.element s.first?, s)
  | .last => (.element s.last?, s)
  | .popFirst => (.element s.first?, s.eraseFirst)
  | .clear => (.done, empty)

/-- **Carries out commands in order**: the answer to each and the set after it. -/
def run (s : WordSet) : List Command → List (Reply × WordSet)
  | [] => []
  | c :: rest =>
    let r := s.perform c
    r :: run r.2 rest

end WordSet

end TaggedWord
