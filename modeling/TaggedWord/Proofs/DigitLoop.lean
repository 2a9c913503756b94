import TaggedWord.Proofs.Reading
import Mathlib.Data.List.Induction

/-! # The loop over digits on machine integers

A piece of at most eight digits is read into a machine integer, digit by digit, before it is taken
in by a word. No operation of this loop leaves the range of its machine integers, so it makes no
difference whether an operation that would leave it stops the program or wraps: either way the word
after each piece is the signed one of the number that the digits so far denote.

* **`Overflow`** — what becomes of a result that a machine integer cannot hold.
* **`Overflow.readPiece?`**, **`Overflow.absorb?`**, **`Overflow.readDigits?`** — the loop with
  every plain operation on machine integers.
* **`readDigits?_exact`** — what the loop computes, step by step. -/

namespace TaggedWord

open Word

/-! ## Operations that can overflow -/

/-- **What becomes of a result that a machine integer cannot hold**: the program stops, or the
result wraps. -/
inductive Overflow where
  | stops
  | wraps
  deriving DecidableEq, Repr

namespace Overflow

/-- The eight-bit natural number of an exact result. -/
def byte? (mode : Overflow) (z : Int) : Option (BitVec 8) :=
  if 0 ≤ z ∧ z < 2 ^ 8 ∨ mode = .wraps then some (BitVec.ofInt 8 z) else none

/-- The two's-complement integer of 64 bits of an exact result. -/
def word? (mode : Overflow) (z : Int) : Option (BitVec 64) :=
  if Signedness.signed.InRange z ∨ mode = .wraps then some (BitVec.ofInt 64 z) else none

/-- `mode.byte? z` is the byte of `z` under either mode if `0 ≤ z < 2 ^ 8`. -/
theorem byte?_of_bounds (mode : Overflow) {z : Int} (h : 0 ≤ z ∧ z < 2 ^ 8) :
    mode.byte? z = some (BitVec.ofInt 8 z) := if_pos (.inl h)

/-- `mode.word? z` is the integer of 64 bits of `z` under either mode if `z` is in the signed
range. -/
theorem word?_of_inRange (mode : Overflow) {z : Int} (h : Signedness.signed.InRange z) :
    mode.word? z = some (BitVec.ofInt 64 z) := if_pos (.inl h)

/-! ## The loop -/

/-- The value of a digit: its character code without that of the zero. -/
def digit? (mode : Overflow) (c : Char) : Option (BitVec 8) := mode.byte? (c.toNat - '0'.toNat)

/-- **One digit taken in**: ten times the number so far and the digit. -/
def takeIn? (mode : Overflow) (acc : BitVec 64) (c : Char) : Option (BitVec 64) := do
  let digit ← mode.digit? c
  let shifted ← mode.word? (acc.toInt * 10)
  mode.word? (shifted.toInt + digit.toNat)

/-- **The number of a piece**, digit by digit. -/
def readPiece? (mode : Overflow) (piece : List Char) : Option (BitVec 64) :=
  piece.foldlM mode.takeIn? 0

/-- The radix step of a piece of `n` digits, which is a named word for a full piece. -/
def power? (mode : Overflow) (n : Nat) : Option (BitVec 64) :=
  if n = chunkDigits then some tenToEight.bits else mode.word? (10 ^ n)

/-- **One step of reading.** -/
def absorb? (mode : Overflow) (w : Word) (piece : List Char) : Option Word := do
  let value ← mode.readPiece? piece
  let power ← mode.power? piece.length
  some ((w.mul ⟨power, .signed⟩).add ⟨value, .signed⟩)

/-- **The signed word that digits spell**, read by pieces. -/
def readDigits? (mode : Overflow) (ds : List Char) : Option Word :=
  (chunksOf chunkDigits ds).foldlM mode.absorb? zero

end Overflow

/-! ## Pieces -/

namespace Word

/-- The pieces of `chunksOf size s` have at least one element and at most `size`. -/
theorem length_of_mem_chunksOf {α : Type} {size : Nat} (hsize : 0 < size) {s piece : List α}
    (h : piece ∈ chunksOf size s) : 1 ≤ piece.length ∧ piece.length ≤ size := by
  fun_induction chunksOf size s with
  | case1 => cases h
  | case2 a rest ih =>
    rcases List.mem_cons.mp h with rfl | h
    · rw [List.length_cons, List.length_take]
      omega
    · exact ih h

/-- The elements of a piece of `chunksOf size s` are elements of `s`. -/
theorem mem_of_mem_chunksOf {α : Type} {size : Nat} {s piece : List α} {a : α}
    (h : piece ∈ chunksOf size s) (ha : a ∈ piece) : a ∈ s := by
  rw [← flatten_chunksOf size s]
  exact List.mem_flatten.mpr ⟨piece, h, ha⟩

/-- The first `k` pieces of `chunksOf size s` hold the first `size * k` elements of `s`. -/
theorem flatten_take_chunksOf {α : Type} {size : Nat} (hsize : 0 < size) (k : Nat) (s : List α) :
    ((chunksOf size s).take k).flatten = s.take (size * k) := by
  induction k generalizing s with
  | zero => rfl
  | succ k ih =>
    cases s with
    | nil => rw [chunksOf, List.take_nil, List.take_nil, List.flatten_nil]
    | cons a rest =>
      obtain ⟨m, rfl⟩ : ∃ m, size = m + 1 := ⟨size - 1, by omega⟩
      have hpiece : a :: rest.take (m + 1 - 1) = (a :: rest).take (m + 1) := rfl
      have hrest : rest.drop (m + 1 - 1) = (a :: rest).drop (m + 1) := rfl
      rw [chunksOf, List.take_succ_cons, List.flatten_cons, ih, hpiece, hrest, ← List.take_add,
        Nat.mul_succ, Nat.add_comm]

end Word

/-! ## No result leaves its range -/

namespace Overflow

/-- Every `n ≤ 10 ^ 8` is in the signed range: numbers of eight digits are, and the radix step
behind them. -/
theorem inRange_of_le {n : Nat} (h : n ≤ 10 ^ 8) : Signedness.signed.InRange n := by
  constructor <;> omega

/-- `(BitVec.ofInt 64 z).toInt = z` in the signed range. -/
theorem toInt_ofInt_of_inRange {z : Int} (h : Signedness.signed.InRange z) :
    (BitVec.ofInt 64 z).toInt = z := Word.value_ofInt h

/-- `mode.digit? c` is a value from zero to nine for every digit `c`. -/
theorem digit?_of_isDigit (mode : Overflow) {c : Char} (h : c.isDigit = true) :
    ∃ d, mode.digit? c = some d ∧ d.toNat = c.toNat - '0'.toNat ∧ d.toNat ≤ 9 := by
  have hc := toNat_bounds_of_isDigit h
  refine ⟨_, mode.byte?_of_bounds ⟨by omega, by omega⟩, ?_, ?_⟩
  · rw [BitVec.toNat_ofInt]
    omega
  · rw [BitVec.toNat_ofInt]
    omega

/-- **One digit is taken in exactly** behind at most seven others: `mode.takeIn?` goes from
`placeValue ds` to `placeValue (ds ++ [c])`. -/
theorem takeIn?_placeValue (mode : Overflow) {ds : List Char} {c : Char}
    (hds : ∀ d ∈ ds ++ [c], d.isDigit = true) (hlength : (ds ++ [c]).length ≤ 8) :
    mode.takeIn? (BitVec.ofInt 64 (placeValue ds)) c
      = some (BitVec.ofInt 64 (placeValue (ds ++ [c]))) := by
  have hbound : placeValue (ds ++ [c]) < 10 ^ 8 :=
    (placeValue_lt hds).trans_le (Nat.pow_le_pow_right (by decide) hlength)
  obtain ⟨d, hd, hvalue, -⟩ := mode.digit?_of_isDigit (hds c (by simp))
  rw [placeValue_concat, ← hvalue] at hbound ⊢
  have hacc : Signedness.signed.InRange (placeValue ds) := inRange_of_le (by omega)
  have hshifted : Signedness.signed.InRange ((placeValue ds : Int) * 10) := by
    exact_mod_cast inRange_of_le (n := placeValue ds * 10) (by omega)
  have hresult : Signedness.signed.InRange ((placeValue ds : Int) * 10 + d.toNat) := by
    exact_mod_cast inRange_of_le hbound.le
  rw [takeIn?, hd]
  simp only [Option.bind_eq_bind, Option.bind_some]
  rw [toInt_ofInt_of_inRange hacc, mode.word?_of_inRange hshifted, Option.bind_some,
    toInt_ofInt_of_inRange hshifted, mode.word?_of_inRange hresult]
  norm_cast

/-- **A piece of at most eight digits is read exactly**: `mode.readPiece? piece` is its
`placeValue`. -/
theorem readPiece?_placeValue (mode : Overflow) {piece : List Char}
    (hpiece : ∀ c ∈ piece, c.isDigit = true) (hlength : piece.length ≤ 8) :
    mode.readPiece? piece = some (BitVec.ofInt 64 (placeValue piece)) := by
  -- the last digit is taken in behind the others
  induction piece using List.reverseRecOn with
  | nil => rfl
  | append_singleton ds c ih =>
    have hds : ∀ d ∈ ds, d.isDigit = true := fun d hd => hpiece d (List.mem_append_left _ hd)
    have hread := ih hds (by rw [List.length_append] at hlength; omega)
    rw [readPiece?] at hread ⊢
    rw [List.foldlM_append, hread]
    simpa using mode.takeIn?_placeValue hpiece hlength

/-- **The radix step of at most eight digits is exact**: `mode.power? n` is `10 ^ n`. -/
theorem power?_eq (mode : Overflow) {n : Nat} (h : n ≤ 8) :
    mode.power? n = some (BitVec.ofInt 64 (10 ^ n)) := by
  rw [power?]
  split
  · rename_i hn
    rw [hn]
    rfl
  · have hbound : 10 ^ n ≤ 10 ^ 8 := Nat.pow_le_pow_right (by decide) h
    have hrange : Signedness.signed.InRange ((10 : Int) ^ n) := by
      exact_mod_cast inRange_of_le hbound
    exact mode.word?_of_inRange hrange

/-- **A step of the loop** does what a step of reading does: `mode.absorb? w piece` is
`w.absorb piece`. -/
theorem absorb?_eq (mode : Overflow) (w : Word) {piece : List Char}
    (hpiece : ∀ c ∈ piece, c.isDigit = true) (hlength : piece.length ≤ 8) :
    mode.absorb? w piece = some (w.absorb piece) := by
  rw [absorb?, mode.readPiece?_placeValue hpiece hlength, mode.power?_eq hlength, absorb,
    powerOfTen_eq_ofInt, ofDigitChars_zero, ofInt, ← BitVec.ofInt_natCast]
  norm_cast

/-- **The loop** of `mode.absorb?` does what `Word.absorb` does over any pieces of at most eight
digits. -/
theorem foldlM_absorb?_eq (mode : Overflow) (w : Word) {pieces : List (List Char)}
    (hpieces : ∀ piece ∈ pieces, (∀ c ∈ piece, c.isDigit = true) ∧ piece.length ≤ 8) :
    pieces.foldlM mode.absorb? w = some (pieces.foldl Word.absorb w) := by
  induction pieces generalizing w with
  | nil => rfl
  | cons piece rest ih =>
    obtain ⟨hpiece, hlength⟩ := hpieces piece List.mem_cons_self
    rw [List.foldlM_cons, mode.absorb?_eq w hpiece hlength, List.foldl_cons]
    exact ih _ fun p hp => hpieces p (List.mem_cons_of_mem piece hp)

/-- `chunksOf chunkDigits` cuts digits into pieces of at most eight digits. -/
theorem pieces_of_digits {ds : List Char} (hds : ∀ c ∈ ds, c.isDigit = true) :
    ∀ piece ∈ chunksOf chunkDigits ds, (∀ c ∈ piece, c.isDigit = true) ∧ piece.length ≤ 8 :=
  fun _ hpiece => ⟨fun c hc => hds c (mem_of_mem_chunksOf hpiece hc),
    (length_of_mem_chunksOf (by decide) hpiece).2⟩

/-- `mode.readPiece?` stands below `10 ^ 8` behind any number of digits of a piece. -/
theorem exists_readPiece?_take (mode : Overflow) {piece : List Char}
    (hpiece : ∀ c ∈ piece, c.isDigit = true) (hlength : piece.length ≤ 8) (k : Nat) :
    ∃ acc, mode.readPiece? (piece.take k) = some acc ∧
      acc.toInt = placeValue (piece.take k) ∧ 0 ≤ acc.toInt ∧ acc.toInt < 10 ^ 8 := by
  have hdigits : ∀ c ∈ piece.take k, c.isDigit = true := fun c hc =>
    hpiece c (List.mem_of_mem_take hc)
  have hshort : (piece.take k).length ≤ 8 := (List.length_take_le' k piece).trans hlength
  have hbound : placeValue (piece.take k) < 10 ^ 8 :=
    (placeValue_lt hdigits).trans_le (Nat.pow_le_pow_right (by decide) hshort)
  have hvalue := toInt_ofInt_of_inRange (inRange_of_le hbound.le)
  refine ⟨_, mode.readPiece?_placeValue hdigits hshort, hvalue, ?_, ?_⟩
  · rw [hvalue]
    exact Int.natCast_nonneg _
  · rw [hvalue]
    exact_mod_cast hbound

/-- `mode.power? n` lies between ten and `10 ^ 8` for a piece of `n` digits. -/
theorem exists_power? (mode : Overflow) {n : Nat} (hleast : 1 ≤ n) (hgreatest : n ≤ 8) :
    ∃ power, mode.power? n = some power ∧
      power.toInt = 10 ^ n ∧ 10 ≤ power.toInt ∧ power.toInt ≤ 10 ^ 8 := by
  have hlow : 10 ^ 1 ≤ 10 ^ n := Nat.pow_le_pow_right (by decide) hleast
  have hhigh : 10 ^ n ≤ 10 ^ 8 := Nat.pow_le_pow_right (by decide) hgreatest
  have hvalue : (BitVec.ofInt 64 (10 ^ n)).toInt = 10 ^ n := by
    apply toInt_ofInt_of_inRange
    exact_mod_cast inRange_of_le hhigh
  refine ⟨_, mode.power?_eq hgreatest, hvalue, ?_, ?_⟩
  · rw [hvalue]
    exact_mod_cast hlow
  · rw [hvalue]
    exact_mod_cast hhigh

/-- **The invariant of the loop**: after any number of pieces of `chunksOf chunkDigits ds` the word
is signed, and its pattern is the `placeValue` of the digits so far modulo `2 ^ 64`. -/
theorem exists_word_after_pieces (mode : Overflow) {ds : List Char}
    (hds : ∀ c ∈ ds, c.isDigit = true) (k : Nat) :
    ∃ w, ((chunksOf chunkDigits ds).take k).foldlM mode.absorb? zero = some w ∧
      w.tag = .signed ∧ w.asUnsigned = placeValue (ds.take (8 * k)) % 2 ^ 64 := by
  have hloop := mode.foldlM_absorb?_eq zero fun piece hpiece =>
    pieces_of_digits hds piece (List.mem_of_mem_take (i := k) hpiece)
  have hvalue := foldl_absorb [] ((chunksOf chunkDigits ds).take k)
  rw [List.nil_append, flatten_take_chunksOf (by decide)] at hvalue
  have hbits := asUnsigned_ofInt .signed (placeValue (ds.take (8 * k)))
  refine ⟨_, hloop, congrArg Word.tag hvalue, (congrArg asUnsigned hvalue).trans ?_⟩
  exact_mod_cast hbits

/-- **The loop over digits is exact** in either mode: `mode.readDigits? ds = some (ofDigits ds)`.
After any number of pieces the word is the signed one of the `placeValue` of the digits so far,
modulo `2 ^ 64`. Within a piece `mode.readPiece?` stays below `10 ^ 8`, `mode.digit?` lies between
zero and nine, and `mode.power?` lies between ten and `10 ^ 8`. -/
theorem readDigits?_exact {ds : List Char} (hds : ∀ c ∈ ds, c.isDigit = true) (mode : Overflow) :
    (∀ k, ∃ w, ((chunksOf chunkDigits ds).take k).foldlM mode.absorb? zero = some w ∧
      w.tag = .signed ∧ w.asUnsigned = placeValue (ds.take (8 * k)) % 2 ^ 64) ∧
    (∀ piece ∈ chunksOf chunkDigits ds,
      (∀ k, ∃ acc, mode.readPiece? (piece.take k) = some acc ∧
        acc.toInt = placeValue (piece.take k) ∧ 0 ≤ acc.toInt ∧ acc.toInt < 10 ^ 8) ∧
      (∀ c ∈ piece, ∃ d, mode.digit? c = some d ∧ d.toNat = c.toNat - '0'.toNat ∧ d.toNat ≤ 9) ∧
      ∃ power, mode.power? piece.length = some power ∧
        power.toInt = 10 ^ piece.length ∧ 10 ≤ power.toInt ∧ power.toInt ≤ 10 ^ 8) ∧
    mode.readDigits? ds = some (ofDigits ds) := by
  refine ⟨mode.exists_word_after_pieces hds, fun piece hpiece => ?_,
    mode.foldlM_absorb?_eq zero (pieces_of_digits hds)⟩
  obtain ⟨hdigits, hgreatest⟩ := pieces_of_digits hds piece hpiece
  have hleast := (length_of_mem_chunksOf (by decide) hpiece).1
  exact ⟨mode.exists_readPiece?_take hdigits hgreatest,
    fun c hc => mode.digit?_of_isDigit (hdigits c hc), mode.exists_power? hleast hgreatest⟩

/-- Five pieces of digits, read without an overflow: the first three spell `2^63` and leave the
least signed word, the fourth leaves zero, and the last one is read behind it. -/
theorem readDigits?_through_least_word_and_zero :
    ∃ ds : List Char, ds = "0000092233720368547758080000000012345678".toList ∧
      (∀ c ∈ ds, c.isDigit = true) ∧
      ((chunksOf chunkDigits ds).take 3).foldlM stops.absorb? zero = some minValue ∧
      ((chunksOf chunkDigits ds).take 4).foldlM stops.absorb? zero = some zero ∧
      stops.readDigits? ds = some ⟨12345678, .signed⟩ := by
  have hds : ∀ c ∈ "0000092233720368547758080000000012345678".toList, c.isDigit = true :=
    List.all_eq_true.mp (by decide)
  obtain ⟨hloop, -, hall⟩ := readDigits?_exact hds .stops
  -- a signed word is known by its pattern
  have hword {w v : Word} (htag : w.tag = v.tag) (hbits : w.asUnsigned = v.asUnsigned) : w = v :=
    Word.ext (BitVec.eq_of_toNat_eq hbits) htag
  refine ⟨_, rfl, hds, ?_, ?_, ?_⟩
  · obtain ⟨w, hrun, htag, hbits⟩ := hloop 3
    rw [hrun, hword htag (hbits.trans (by decide +kernel) : w.asUnsigned = minValue.asUnsigned)]
  · obtain ⟨w, hrun, htag, hbits⟩ := hloop 4
    rw [hrun, hword htag (hbits.trans (by decide +kernel) : w.asUnsigned = zero.asUnsigned)]
  · rw [hall]
    decide +kernel

end Overflow

end TaggedWord
