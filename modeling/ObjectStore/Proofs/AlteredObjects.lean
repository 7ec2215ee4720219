import ObjectStore.Proofs.FletcherSums
import ObjectStore.Proofs.Outcomes

/-
Alterations and the checksum. Of two objects of one length that differ in two neighbouring words
at most, one verifies with the checksum of the other exactly if every word that differs is all
zeros in one of them and all ones in the other. A byte alone is never altered unnoticed.
-/
namespace ObjectStore

open Fletcher

namespace ByteOrder

theorem read_congr {e : ByteOrder} {w : Width} {b b' : Bytes} {offset : Nat}
    (size_eq : b'.size = b.size)
    (same : ∀ i < w.bytes, b'.getPadded (offset + i) = b.getPadded (offset + i)) :
    e.read w b' offset = e.read w b offset := by
  have word : e.field w b' offset = e.field w b offset := field_congr same
  rw [read, read, size_eq, ← field, ← field, word]

/-- A word that is read tells the bytes in which it is stored. -/
theorem read_inj {e : ByteOrder} {w : Width} {b b' : Bytes} {offset : Nat} {v : UInt64}
    (read : e.read w b offset = .ok v) (read' : e.read w b' offset = .ok v) :
    ∀ i < w.bytes, b'.getPadded (offset + i) = b.getPadded (offset + i) := by
  have width := w.bytes_le
  unfold ByteOrder.read at read read'
  split at read
  · cases read
  · split at read'
    · cases read'
    · have words := (Except.ok.inj read').trans (Except.ok.inj read).symm
      have bytes := wordOf_inj (by simp) (by simpa using width) words
      intro i lt
      have byte := congrArg (fun l => l[i]?) bytes
      simpa [lt] using byte

theorem short_wordOf (e : ByteOrder) {l : List UInt8} (length_eq : l.length = 4) :
    Short (e.wordOf l) := by
  have below := e.toNat_wordOf_lt (l := l) (by omega)
  rw [length_eq] at below
  exact below

theorem wordOf_zeros (e : ByteOrder) : e.wordOf (List.replicate 4 0) = 0 := by
  cases e <;> decide

theorem wordOf_ones (e : ByteOrder) : e.wordOf (List.replicate 4 0xFF) = modulus := by
  cases e <;> decide

end ByteOrder

namespace Object

variable {e : ByteOrder} {b b' : Bytes} {k : Nat}

/-- A word behind the checksum field, with zeros past the end of the object. -/
def coveredWord (b : Bytes) (k : Nat) : List UInt8 :=
  (List.range 4).map fun i => b.getPadded (checksumSize + 4 * k + i)

/-- All zeros in one version and all ones in the other. -/
def Inverted (l l' : List UInt8) : Prop :=
  (l = List.replicate 4 0 ∧ l' = List.replicate 4 0xFF) ∨
    l = List.replicate 4 0xFF ∧ l' = List.replicate 4 0

theorem length_coveredWord (b : Bytes) (k : Nat) : (coveredWord b k).length = 4 := by
  simp [coveredWord]

theorem getElem?_coveredWord {j : Nat} (lt : j < 4) :
    (coveredWord b k)[j]? = some (b.getPadded (checksumSize + 4 * k + j)) := by
  simp [coveredWord, lt]

theorem coveredWord_past (past : b.size ≤ checksumSize + 4 * k) :
    coveredWord b k = List.replicate 4 0 := by
  apply List.ext_getElem
  · simp [coveredWord]
  · intro i _ _
    simp only [coveredWord, List.getElem_map, List.getElem_range, List.getElem_replicate]
    exact Bytes.getPadded_past (by omega)

theorem wordAt_drop (e : ByteOrder) (b : Bytes) (k : Nat) :
    Checked.wordAt e (b.drop checksumSize) k = e.wordOf (coveredWord b k) := by
  simp only [Checked.wordAt, Bytes.getPadded_drop, ← Nat.add_assoc]
  rfl

theorem words_drop (e : ByteOrder) (b : Bytes) : words e (b.drop checksumSize)
    = (List.range ((b.size - checksumSize + 3) / 4)).map fun k => e.wordOf (coveredWord b k) := by
  simp only [← wordAt_drop, ← Bytes.size_drop]
  rfl

theorem alike_words {l l' : List UInt8} (length_eq : l.length = 4) (length_eq' : l'.length = 4) :
    Alike (e.wordOf l) (e.wordOf l') ↔ (l' ≠ l → Inverted l l') := by
  have told : ∀ {x y : List UInt8}, x.length = 4 → y.length = 4 →
      (e.wordOf x = e.wordOf y ↔ x = y) := by
    intro x y hx hy
    constructor
    · exact ByteOrder.wordOf_inj (by omega) (by omega)
    · intro same
      rw [same]
  have zeros : (List.replicate 4 (0 : UInt8)).length = 4 := rfl
  have ones : (List.replicate 4 (0xFF : UInt8)).length = 4 := rfl
  rw [alike_iff (e.short_wordOf length_eq) (e.short_wordOf length_eq'), ← e.wordOf_zeros,
    ← e.wordOf_ones, told length_eq length_eq', told length_eq zeros, told length_eq' ones,
    told length_eq ones, told length_eq' zeros]
  constructor
  · rintro (same | inverted) differ
    · exact absurd same.symm differ
    · exact inverted
  · intro inverted
    by_cases same : l' = l
    · exact .inl same.symm
    · exact .inr (inverted same)

structure Altered (b b' : Bytes) (k : Nat) : Prop where
  size_eq : b'.size = b.size
  outside : ∀ i, i < checksumSize + 4 * k ∨ checksumSize + 4 * (k + 2) ≤ i →
    b'.getPadded i = b.getPadded i

theorem Altered.coveredWord_eq (altered : Altered b b' k) {i : Nat} (first : i ≠ k)
    (second : i ≠ k + 1) : coveredWord b' i = coveredWord b i := by
  apply List.map_congr_left
  intro j mem
  have lt := List.mem_range.mp mem
  exact altered.outside _ (by omega)

/-- The stored checksum stays, so the sums of both versions are compared. -/
theorem Altered.verifies_iff_sums (altered : Altered b b' k) (verified : verifies e b = true) :
    verifies e b' = true ↔
      sums (words e (b.drop checksumSize)) = sums (words e (b'.drop checksumSize)) := by
  obtain ⟨roomy, stored⟩ := (verifies_iff e b).mp verified
  have kept : e.read64 b' 0 = e.read64 b 0 := by
    apply ByteOrder.read_congr altered.size_eq
    intro i lt
    have width : Width.eight.bytes = checksumSize := rfl
    exact altered.outside _ (by omega)
  rw [verifies_iff, kept, stored, altered.size_eq, Except.ok.injEq, checksum_eq, checksum_eq,
    Sums.joined_inj (Checked.sums_reduced _) (Checked.sums_reduced _)]
  exact ⟨fun both => both.2, fun same => ⟨roomy, same⟩⟩

theorem Altered.verifies_iff_inverted (altered : Altered b b' k)
    (verified : verifies e b = true) : verifies e b' = true ↔
      ∀ i, coveredWord b' i ≠ coveredWord b i →
        Inverted (coveredWord b i) (coveredWord b' i) := by
  have same : ∀ i, i ≠ k → i ≠ k + 1 → e.wordOf (coveredWord b i) = e.wordOf (coveredWord b' i) :=
    fun i first second => by rw [altered.coveredWord_eq first second]
  rw [altered.verifies_iff_sums verified, words_drop, words_drop, altered.size_eq,
    sums_range_altered (fun i => e.short_wordOf (length_coveredWord b i))
      (fun i => e.short_wordOf (length_coveredWord b' i)) same]
  simp only [alike_words (length_coveredWord b _) (length_coveredWord b' _)]
  constructor
  · intro covered i differ
    by_cases inside : i < (b.size - checksumSize + 3) / 4
    · exact covered i inside differ
    · -- Past the end both versions have zeros.
      have size_eq := altered.size_eq
      have past : b.size ≤ checksumSize + 4 * i := by omega
      exact absurd (by rw [coveredWord_past past, coveredWord_past (by omega)]) differ
  · intro all i _
    exact all i

structure AlteredByte (b b' : Bytes) (i : Nat) : Prop where
  size_eq : b'.size = b.size
  inside : i < b.size
  differs : b'.getPadded i ≠ b.getPadded i
  outside : ∀ j, j ≠ i → b'.getPadded j = b.getPadded j

/-- An inverted word differs in all of its bytes, of which only one is altered. -/
theorem AlteredByte.not_inverted {i : Nat} (altered : AlteredByte b b' i) (k : Nat) :
    ¬Inverted (coveredWord b k) (coveredWord b' k) := by
  have agrees : ∃ j < 4, b'.getPadded (checksumSize + 4 * k + j)
      = b.getPadded (checksumSize + 4 * k + j) := by
    by_cases first : checksumSize + 4 * k = i
    · exact ⟨1, by decide, altered.outside _ (by omega)⟩
    · exact ⟨0, by decide, altered.outside _ (by omega)⟩
  obtain ⟨j, lt, same⟩ := agrees
  have byte : ∀ {c : Bytes} {v : UInt8}, coveredWord c k = List.replicate 4 v →
      c.getPadded (checksumSize + 4 * k + j) = v := by
    intro c v word
    have at_j := getElem?_coveredWord (b := c) (k := k) lt
    rw [word, List.getElem?_replicate, if_pos lt] at at_j
    exact (Option.some.inj at_j).symm
  rintro (⟨zeros, ones⟩ | ⟨ones, zeros⟩)
  · rw [byte zeros, byte ones] at same
    exact absurd same (by decide)
  · rw [byte zeros, byte ones] at same
    exact absurd same (by decide)

theorem AlteredByte.refused {i : Nat} (altered : AlteredByte b b' i)
    (verified : verifies e b = true) : verifies e b' = false := by
  apply Bool.eq_false_iff.mpr
  intro verified'
  by_cases covered : checksumSize ≤ i
  · have words : Altered b b' ((i - checksumSize) / 4) := by
      constructor
      · exact altered.size_eq
      · intro j outside
        exact altered.outside j (by omega)
    have inverted := (words.verifies_iff_inverted verified).mp verified' ((i - checksumSize) / 4)
    refine altered.not_inverted _ (inverted fun same => altered.differs ?_)
    have lt : (i - checksumSize) % 4 < 4 := by omega
    have place : checksumSize + 4 * ((i - checksumSize) / 4) + (i - checksumSize) % 4 = i := by
      omega
    have byte := congrArg (fun l => l[(i - checksumSize) % 4]?) same
    simpa only [getElem?_coveredWord lt, place, Option.some.injEq] using byte
  · have behind : b'.drop checksumSize = b.drop checksumSize := by
      apply Bytes.ext_getPadded
      · rw [Bytes.size_drop, Bytes.size_drop, altered.size_eq]
      · intro j _
        rw [Bytes.getPadded_drop, Bytes.getPadded_drop]
        exact altered.outside _ (by omega)
    obtain ⟨-, stored⟩ := (verifies_iff e b).mp verified
    obtain ⟨-, stored'⟩ := (verifies_iff e b').mp verified'
    rw [behind] at stored'
    have width : Width.eight.bytes = checksumSize := rfl
    have byte := ByteOrder.read_inj stored stored' i (by omega)
    rw [Nat.zero_add] at byte
    exact altered.differs byte

/-- Which alterations of an intact object its checksum misses. -/
theorem verifies_altered (e : ByteOrder) (b : Bytes) (verified : verifies e b = true) :
    (∀ b' k, Altered b b' k → (verifies e b' = true ↔
      ∀ i, coveredWord b' i ≠ coveredWord b i →
        Inverted (coveredWord b i) (coveredWord b' i))) ∧
      ∀ b' i, AlteredByte b b' i → verifies e b' = false := by
  constructor
  · intro b' k altered
    exact altered.verifies_iff_inverted verified
  · intro b' i altered
    exact altered.refused verified

/-- An object of two words and two bytes behind its header, with the checksum that it has when
the words are all zeros and all ones. -/
def twoWords (first second last : UInt8) : Bytes :=
  ⟨#[0x46, 0x07, 0x20, 0xBE, 0x73, 0xF1, 0xDB, 0x21,
    0, 0, 0, 0, 0, 0, 4, 4, 0, 0, 0, 0, 0, 0, 0, 17, 0x40, 0, 0, 0x0B, 0, 0, 0, 0] ++
    Array.replicate 4 first ++ Array.replicate 4 second ++ #[6, last]⟩

theorem size_twoWords (first second last : UInt8) : (twoWords first second last).size = 42 := by
  simp [twoWords, ByteArray.size]

/-- Zeros and ones may change places, but the last byte may not change. -/
theorem verifies_altered_exchanged : verifies .big (twoWords 0 0xFF 7) = true ∧
    Altered (twoWords 0 0xFF 7) (twoWords 0xFF 0 7) 6 ∧
    AlteredByte (twoWords 0 0xFF 7) (twoWords 0 0xFF 8) 41 ∧
    verifies .big (twoWords 0xFF 0 7) = true ∧ verifies .big (twoWords 0 0xFF 8) = false := by
  have verified : verifies .big (twoWords 0 0xFF 7) = true := by decide +kernel
  have exchanged : Altered (twoWords 0 0xFF 7) (twoWords 0xFF 0 7) 6 := by
    have inside : ∀ i < 42, i < 32 ∨ 40 ≤ i →
        (twoWords 0xFF 0 7).getPadded i = (twoWords 0 0xFF 7).getPadded i := by decide
    constructor
    · rw [size_twoWords, size_twoWords]
    · intro i outside
      by_cases lt : i < 42
      · exact inside i lt outside
      · rw [Bytes.getPadded_past (by rw [size_twoWords]; omega),
          Bytes.getPadded_past (by rw [size_twoWords]; omega)]
  have byte : AlteredByte (twoWords 0 0xFF 7) (twoWords 0 0xFF 8) 41 := by
    have before : ∀ i < 41,
        (twoWords 0 0xFF 8).getPadded i = (twoWords 0 0xFF 7).getPadded i := by decide
    constructor
    · rw [size_twoWords, size_twoWords]
    · rw [size_twoWords]
      decide
    · decide
    · intro i ne
      by_cases lt : i < 41
      · exact before i lt
      · rw [Bytes.getPadded_past (by rw [size_twoWords]; omega),
          Bytes.getPadded_past (by rw [size_twoWords]; omega)]
  obtain ⟨neighbours, bytes⟩ := verifies_altered .big _ verified
  refine ⟨verified, exchanged, byte, ?_, bytes _ _ byte⟩
  apply (neighbours _ _ exchanged).mpr
  intro i differ
  by_cases first : i = 6
  · subst i
    left
    decide
  by_cases second : i = 7
  · subst i
    right
    decide
  · exact absurd (exchanged.coveredWord_eq first second) differ

end Object

end ObjectStore
