import TaggedWord.Word.Order

/-! # Sorting and counting words

* **`Words.sort`** — the stable sort by value.
* **`Words.dedup`** — the first word of each run of equal ones.
* **`Words.distinct`** — the words that a hash table holds after all have been inserted. -/

namespace TaggedWord.Words

/-- **The words in ascending order.** Equal words stay in the order in which they came. -/
def sort (ws : List Word) : List Word := ws.mergeSort fun a b => (a.compare b).isLE

/-- **The first word of each run of equal words.** -/
def dedup (ws : List Word) : List Word := ws.eraseRepsBy Word.eqv

/-- Whether a hash table takes two words for the same: they have the same hash and are equal. -/
def sameSlot (a b : Word) : Bool := a.hashBytes == b.hashBytes && a.eqv b

/-- **The words that differ from all words before them** in the eyes of a hash table. -/
def distinct (ws : List Word) : List Word := ws.eraseDupsBy sameSlot

end TaggedWord.Words
