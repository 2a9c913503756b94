import TaggedWord.Proofs.JsonReading
import TaggedWord.Proofs.MapContents
import Mathlib.Data.List.Dedup

/-! # Maps of words through JSON

The entries of a map are written in the order of their keys and inserted one by one when they are
read, with keys and values as signed words. Two keys with the same pattern become one, and the entry
written last is kept. Of a negative key and an unsigned one with the same pattern that is the
unsigned one, which stood behind all negative keys (`readWordMap_writeWordMap_ofList`).

* **`WordMap.signedReading`** — the map that is read back.
* **`WordMap.entryAt?_signedReading`** — its entries come from the last ones of each pattern.
* **`JsonLibrary.readWordMap_writeWordMap`** — a library of `LawfulMaps` reads back this map. -/

namespace TaggedWord

/-! ## The map that is read back -/

/-- An entry with its key and its value read as signed words. -/
def signedEntry (e : Word × Word) : Word × Word := (e.1.toSigned, e.2.toSigned)

namespace WordMap

/-- **The map that is read back** when a map has been written. -/
def signedReading (m : WordMap Word) : WordMap Word := ofList (m.toList.map signedEntry)

/-- `elementAt?` finds a pattern `x` among signed readings as the number `x.toInt` that it denotes
there. -/
theorem elementAt?_map_signedEntry (entries : List (Word × Word)) (x : BitVec 64) :
    elementAt? Prod.fst x.toInt (entries.map signedEntry)
      = (entries.find? fun e => e.1.bits = x).map signedEntry := by
  rw [elementAt?, List.find?_map]
  congr 2
  funext e
  exact decide_eq_decide.mpr BitVec.toInt_inj

/-- **The entry of a pattern** in `m.signedReading` is the last one of this pattern in `m`. -/
theorem entryAt?_signedReading (m : WordMap Word) (x : BitVec 64) :
    m.signedReading.entryAt? x.toInt
      = (m.toList.reverse.find? fun e => e.1.bits = x).map signedEntry := by
  rw [signedReading, entryAt?_ofList, ← List.map_reverse, elementAt?_map_signedEntry,
    elementAt?_map_signedEntry]
  cases hnewest : m.toList.reverse.find? fun e => decide (e.1.bits = x) with
  | none => simp only [Option.map_none, Option.bind_fun_none]
  | some newest =>
    -- the first entry of the pattern has the same key as the last one, once both are signed
    have hmem := List.mem_reverse.mp (List.mem_of_find?_eq_some hnewest)
    have hbits : newest.1.bits = x := by simpa using List.find?_some hnewest
    obtain ⟨oldest, holdest⟩ : ∃ oldest,
        m.toList.find? (fun e => decide (e.1.bits = x)) = some oldest :=
      Option.isSome_iff_exists.mp (List.find?_isSome.mpr ⟨newest, hmem, by simpa using hbits⟩)
    have hbits' : oldest.1.bits = x := by simpa using List.find?_some holdest
    have hkey : oldest.1.toSigned = newest.1.toSigned := Word.ext (hbits'.trans hbits.symm) rfl
    rw [holdest]
    simp only [Option.map_some, Option.bind_some, signedEntry, hkey]

/-- All keys and values of `m.signedReading` are signed. -/
theorem tag_of_mem_signedReading {m : WordMap Word} {e : Word × Word}
    (h : e ∈ m.signedReading.toList) : e.1.tag = .signed ∧ e.2.tag = .signed := by
  obtain ⟨⟨oldest, holdest, hkey⟩, newest, hnewest, hvalue⟩ := exists_of_mem_ofList h
  obtain ⟨a, -, rfl⟩ := List.mem_map.mp holdest
  obtain ⟨b, -, rfl⟩ := List.mem_map.mp hnewest
  rw [← hkey, ← hvalue]
  exact ⟨rfl, rfl⟩

/-- The entries of a pattern in `m.signedReading` are the one that was written last, if there was
one. -/
theorem filter_bits_signedReading (m : WordMap Word) (x : BitVec 64) :
    m.signedReading.toList.filter (fun e => e.1.bits = x)
      = ((m.toList.reverse.find? fun e => e.1.bits = x).map signedEntry).toList := by
  rw [← entryAt?_signedReading, entryAt?, ← filter_value_eq m.signedReading.ascending]
  refine List.filter_congr fun e he => decide_eq_decide.mpr ?_
  -- signed keys have the same pattern if they denote the same number
  obtain ⟨⟨y, tag⟩, v⟩ := e
  obtain rfl : tag = .signed := (tag_of_mem_signedReading he).1
  exact BitVec.toInt_inj.symm

/-! ## What is kept -/

/-- An unsigned key is the last one of its pattern in `m.toList`. -/
theorem find?_reverse_of_unsigned_mem {m : WordMap Word} {x : BitVec 64} {v : Word}
    (hmem : (⟨x, .unsigned⟩, v) ∈ m.toList) :
    (m.toList.reverse.find? fun e => e.1.bits = x) = some (⟨x, .unsigned⟩, v) := by
  refine (find?_reverse_eq_some_iff m.ascending).mpr ⟨hmem, by simp, fun e _ hbits => ?_⟩
  obtain ⟨⟨y, tag⟩, w⟩ := e
  obtain rfl : y = x := by simpa using hbits
  cases tag with
  | signed =>
    have hx := y.isLt
    simp only [Word.value_signed, Word.value_unsigned, BitVec.toInt_eq_toNat_cond]
    split <;> omega
  | unsigned => exact Int.le_refl _

/-- A signed key is the last one of its pattern in `m.toList` if no unsigned key has the same. -/
theorem find?_reverse_of_signed_mem {m : WordMap Word} {x : BitVec 64} {v : Word}
    (hmem : (⟨x, .signed⟩, v) ∈ m.toList) (hnone : ∀ w, (⟨x, .unsigned⟩, w) ∉ m.toList) :
    (m.toList.reverse.find? fun e => e.1.bits = x) = some (⟨x, .signed⟩, v) := by
  refine (find?_reverse_eq_some_iff m.ascending).mpr ⟨hmem, by simp, fun e he hbits => ?_⟩
  obtain ⟨⟨y, tag⟩, w⟩ := e
  obtain rfl : y = x := by simpa using hbits
  cases tag with
  | signed => exact Int.le_refl _
  | unsigned => exact absurd he (hnone w)

/-- The patterns of the keys of `m.signedReading` are those of the keys of `m`. -/
theorem mem_bits_signedReading_iff (m : WordMap Word) (x : BitVec 64) :
    x ∈ m.signedReading.toList.map (fun e => e.1.bits) ↔ x ∈ m.toList.map fun e => e.1.bits := by
  have hfind : m.signedReading.toList.find? (fun e => e.1.bits = x)
      = (m.toList.reverse.find? fun e => e.1.bits = x).map signedEntry := by
    rw [← List.head?_filter, filter_bits_signedReading, Option.head?_toList]
  have hsome := congrArg Option.isSome hfind
  rw [Option.isSome_map, Bool.eq_iff_iff, List.find?_isSome, List.find?_isSome] at hsome
  simpa [List.mem_map] using hsome

/-- Each pattern has one entry in `m.signedReading`. -/
theorem nodup_bits_signedReading (m : WordMap Word) :
    (m.signedReading.toList.map fun e => e.1.bits).Nodup := by
  refine List.pairwise_map.mpr (m.signedReading.ascending.imp_of_mem fun he he' hlt hbits => ?_)
  have hkey := Word.ext hbits
    ((tag_of_mem_signedReading he).1.trans (tag_of_mem_signedReading he').1.symm)
  rw [hkey] at hlt
  exact Int.lt_irrefl _ hlt

/-- `m.signedReading` has as many entries as there are patterns among the keys of `m`. -/
theorem length_signedReading (m : WordMap Word) :
    m.signedReading.toList.length = (m.toList.map fun e => e.1.bits).dedup.length := by
  have hperm := (List.perm_ext_iff_of_nodup m.nodup_bits_signedReading
    (List.nodup_dedup (m.toList.map fun e => e.1.bits))).mpr fun x => by
      rw [mem_bits_signedReading_iff, List.mem_dedup]
  rw [← hperm.length_eq, List.length_map]

/-- **No entry is lost** in `m.signedReading` exactly if no two keys have the same pattern. -/
theorem length_signedReading_eq_iff (m : WordMap Word) :
    m.signedReading.toList.length = m.toList.length ↔
      (m.toList.map fun e => e.1.bits).Nodup := by
  rw [length_signedReading, ← List.dedup_eq_self]
  constructor
  · intro h
    exact (List.dedup_sublist _).eq_of_length (by rw [h, List.length_map])
  · intro h
    rw [h, List.length_map]

/-- A word `w` with `v.eqv w` for a signed `v` is signed or has a clear top bit. -/
theorem fits_of_signed_eqv {v w : Word} (hv : v.tag = .signed) (h : v.eqv w = true) :
    w.tag = .signed ∨ w.topBit = false := by
  have hbits : v.bits = w.bits := Word.bits_eq_of_eqv h
  have hread : v = w.toSigned := Word.ext hbits hv
  rw [hread] at h
  exact (Word.toSigned_eqv_iff w).mp h

/-- **The map comes back equal**, entry by entry of `m.signedReading`, exactly if every key and
every value is signed or has a clear top bit. -/
theorem forall₂_eqv_signedReading_iff (m : WordMap Word) :
    List.Forall₂ (fun e e' => e.1.eqv e'.1 = true ∧ e.2.eqv e'.2 = true)
        m.signedReading.toList m.toList ↔
      ∀ e ∈ m.toList, (e.1.tag = .signed ∨ e.1.topBit = false) ∧
        (e.2.tag = .signed ∨ e.2.topBit = false) := by
  constructor
  · intro hall e he
    -- every entry stands beside one that is read back, with a signed key and a signed value
    obtain ⟨hlength, hget⟩ := List.forall₂_iff_get.mp hall
    obtain ⟨⟨i, hi⟩, rfl⟩ := List.mem_iff_get.mp he
    obtain ⟨hkey, hvalue⟩ := hget i (by rwa [hlength]) hi
    obtain ⟨htagkey, htagvalue⟩ := tag_of_mem_signedReading (List.get_mem m.signedReading.toList _)
    exact ⟨fits_of_signed_eqv htagkey hkey, fits_of_signed_eqv htagvalue hvalue⟩
  · intro hfits
    -- keys that keep their values keep their order, so the entries stay as they stand
    have hasc : Ascending Prod.fst (m.toList.map signedEntry) := by
      refine List.pairwise_map.mpr (m.ascending.imp_of_mem fun {e e'} he he' hlt => ?_)
      rwa [signedEntry, signedEntry, Word.value_toSigned, if_pos (hfits e he).1,
        Word.value_toSigned, if_pos (hfits e' he').1]
    rw [signedReading, toList_ofList hasc, List.forall₂_map_left_iff, List.forall₂_same]
    intro e he
    exact ⟨(Word.toSigned_eqv_iff e.1).mpr (hfits e he).1,
      (Word.toSigned_eqv_iff e.2).mpr (hfits e he).2⟩

end WordMap

/-! ## Reading a written map -/

namespace JsonLibrary

/-- `lib.writeWordMap m` has the entries of `m` in the order of the keys, with the decimal texts of
keys and values between quotes. -/
theorem writeWordMap_eq {ε : Type} {lib : JsonLibrary ε} (h : lib.LawfulMaps) (m : WordMap Word) :
    lib.writeWordMap m = enclosed "\x7b" "\x7d"
      (m.toList.map fun e => quotedEntry e.1.decimal e.2.decimal) := by
  rw [writeWordMap, h.writeMap_eq]
  congr 2
  funext e
  rw [h.writeText_eq _ (isPlainText_decimal e.1), h.writeText_eq _ (isPlainText_decimal e.2)]
  rfl

/-- **A map of words that is written and read back** by `lib` is `m.signedReading`. -/
theorem readWordMap_writeWordMap {ε : Type} {lib : JsonLibrary ε} (h : lib.LawfulMaps)
    (m : WordMap Word) : lib.readWordMap (lib.writeWordMap m) = .ok m.signedReading := by
  have hread := h.readMap_enclosed Word.ofDatum Word.ofDatum WordMap.insert .empty Word.parseD
    Word.parseD (m.toList.map fun e => (e.1.decimal, e.2.decimal)) <| by
    intro e he
    obtain ⟨e, -, rfl⟩ := List.mem_map.mp he
    exact ⟨⟨isPlainText_decimal e.1, ofDatum_decimal e.1⟩,
      isPlainText_decimal e.2, ofDatum_decimal e.2⟩
  rw [List.map_map, List.foldl_map] at hread
  rw [writeWordMap_eq h, readWordMap]
  refine hread.trans (congrArg Except.ok ?_)
  simp only [parseD_decimal, WordMap.signedReading, WordMap.ofList, signedEntry, List.foldl_map]

/-- **Maps of words through JSON.** `WordMap.ofList entries` holds under each number the first key
that came with it and the last value. Written by `lib.writeWordMap` and read back by
`lib.readWordMap` of a lawful library, it has for each pattern among its keys one entry, whose key
is the signed word of this pattern. Its value is the signed reading of the value under the unsigned
key of the pattern, if the map has such a key, and of the value under the signed key otherwise; so a
negative key gives way to an unsigned key of the same pattern. No entry is lost if and only if no
two keys have the same pattern, and the map comes back equal, entry by entry, if and only if every
key and every value is signed or has a clear top bit. -/
theorem readWordMap_writeWordMap_ofList {ε : Type} (lib : JsonLibrary ε) (h : lib.LawfulMaps)
    (entries : List (Word × Word)) (m : WordMap Word) (hm : m = .ofList entries) :
    (∀ z, m.entryAt? z =
      (elementAt? Prod.fst z entries).bind fun oldest =>
        (elementAt? Prod.fst z entries.reverse).map fun newest => (oldest.1, newest.2)) ∧
    ∃ n : WordMap Word, lib.readWordMap (lib.writeWordMap m) = .ok n ∧
      (∀ x v, (⟨x, .unsigned⟩, v) ∈ m.toList →
        n.toList.filter (fun e => e.1.bits = x) = [(⟨x, .signed⟩, v.toSigned)]) ∧
      (∀ x v, (⟨x, .signed⟩, v) ∈ m.toList → (∀ w, (⟨x, .unsigned⟩, w) ∉ m.toList) →
        n.toList.filter (fun e => e.1.bits = x) = [(⟨x, .signed⟩, v.toSigned)]) ∧
      (∀ x, (∀ e ∈ m.toList, e.1.bits ≠ x) → n.toList.filter (fun e => e.1.bits = x) = []) ∧
      (n.toList.length = m.toList.length ↔ (m.toList.map fun e => e.1.bits).Nodup) ∧
      (List.Forall₂ (fun e e' => e.1.eqv e'.1 = true ∧ e.2.eqv e'.2 = true) n.toList m.toList ↔
        ∀ e ∈ m.toList, (e.1.tag = .signed ∨ e.1.topBit = false) ∧
          (e.2.tag = .signed ∨ e.2.topBit = false)) := by
  refine ⟨fun z => by rw [hm, WordMap.entryAt?_ofList], m.signedReading,
    readWordMap_writeWordMap h m, fun x v hv => ?_, fun x v hv hnone => ?_, fun x hnone => ?_,
    m.length_signedReading_eq_iff, m.forall₂_eqv_signedReading_iff⟩
  · rw [m.filter_bits_signedReading, WordMap.find?_reverse_of_unsigned_mem hv]
    rfl
  · rw [m.filter_bits_signedReading, WordMap.find?_reverse_of_signed_mem hv hnone]
    rfl
  · have hfind : (m.toList.reverse.find? fun e => decide (e.1.bits = x)) = none :=
      List.find?_eq_none.mpr fun e he => by simpa using hnone e (List.mem_reverse.mp he)
    rw [m.filter_bits_signedReading, hfind]
    rfl

/-- With `JsonText.library`, which is lawful, minus one and the greatest unsigned word share their
pattern, and five comes in both tags: the map keeps the unsigned five with the later value, and of
its three entries two are read back, without the value of minus one. -/
theorem readWordMap_writeWordMap_collision :
    JsonText.library.LawfulMaps ∧
    ∃ m n : WordMap Word,
      m = .ofList [(⟨0xFFFFFFFFFFFFFFFF, .signed⟩, .one), (.maxUnsignedValue, .maxValue),
        (⟨5, .unsigned⟩, .zero), (⟨5, .signed⟩, .minValue)] ∧
      JsonText.library.readWordMap (JsonText.library.writeWordMap m) = .ok n ∧
      n.toList.filter (fun e => e.1.bits = 0xFFFFFFFFFFFFFFFF)
        = [(⟨0xFFFFFFFFFFFFFFFF, .signed⟩, .maxValue)] ∧
      n.toList.filter (fun e => e.1.bits = 5) = [(⟨5, .signed⟩, .minValue)] ∧
      n.toList.length ≠ m.toList.length := by
  obtain ⟨-, n, hread, hunsigned, -, -, hlength, -⟩ := readWordMap_writeWordMap_ofList
    JsonText.library JsonText.lawfulMaps_library
    [(⟨0xFFFFFFFFFFFFFFFF, .signed⟩, .one), (.maxUnsignedValue, .maxValue),
      (⟨5, .unsigned⟩, .zero), (⟨5, .signed⟩, .minValue)] _ rfl
  refine ⟨JsonText.lawfulMaps_library, _, n, rfl, hread, ?_, ?_, ?_⟩
  · exact hunsigned 0xFFFFFFFFFFFFFFFF .maxValue (by decide)
  · exact hunsigned 5 .minValue (by decide)
  · rw [Ne, hlength]
    decide

end JsonLibrary

end TaggedWord
