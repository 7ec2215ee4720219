import Mathlib.Order.Bounds.Defs
import ObjectStore.Json.Records
import ObjectStore.Proofs.ImageSource
import ObjectStore.Proofs.SuperblockFormat

/-
Where block sizes come from and what is computed with them. A size that was checked is one of those
that a container may use; one that was read back from its text is any word at all. Counting blocks
and laying them over an image divide by the size, which comes out right for every size but zero.
-/
namespace ObjectStore

namespace Checked

def blocksFor (size : BlockSize) (count : UInt64) : Machine Nat :=
  Machine.divCeil 64 count.toNat size.toNat

end Checked

theorem Form.read_word32_iff {word : UInt32} {j : Json} :
    word32.read j = some word ↔ j = .number (some word.toNat) := by
  constructor
  · intro read
    obtain ⟨n, read, same⟩ := Option.map_eq_some_iff.mp read
    unfold below at read
    dsimp only at read
    split at read
    · split at read
      · rename_i small
        cases read
        rw [← same, Nat.toUInt32_eq, UInt32.toNat_ofNat_of_lt' small]
      · cases read
    · cases read
  · rintro rfl
    have small : word.toNat < UInt32.size := word.toNat_lt
    change Option.map Nat.toUInt32 (if word.toNat < UInt32.size then some word.toNat else none) = _
    rw [if_pos small, Option.map_some, Nat.toUInt32_eq, UInt32.ofNat_toNat]

namespace BlockSize

inductive Obtained : BlockSize → Prop where
  | checked {word : UInt32} {size : BlockSize} (made : ofWord word = .ok size) : Obtained size
  | standard : Obtained standard
  | restored {j : Json} {size : BlockSize} (read : form.read j = some size) : Obtained size

variable {size : BlockSize}

/-- A size that was checked and the standard one are told by the sizes that are admitted. -/
theorem checked_or_standard_iff :
    ((∃ word, ofWord word = .ok size) ∨ size = standard) ↔ Admissible size.bytes := by
  constructor
  · rintro (⟨word, made⟩ | rfl)
    · obtain ⟨rfl, listed⟩ := ofWord_eq_ok made
      exact mem_legal.mp listed
    · exact mem_legal.mp (by decide)
  · intro admitted
    exact .inl ⟨size.bytes, if_pos (mem_legal.mpr admitted)⟩

/-- A size is read back from its bare number, whatever that is. -/
theorem read_form_iff {j : Json} : form.read j = some size ↔ j = .number (some size.toNat) := by
  obtain ⟨word⟩ := size
  change Option.map BlockSize.mk (Form.word32.read j) = some ⟨word⟩ ↔ j = .number (some word.toNat)
  rw [Option.map_eq_some_iff, ← Form.read_word32_iff]
  constructor
  · rintro ⟨_, read, same⟩
    cases same
    exact read
  · exact fun read => ⟨word, read, rfl⟩

/-- The offset of a block is a product, in which nothing is divided. -/
theorem offsetOf_eq (size : BlockSize) (address : BlockAddress) :
    (size.offsetOf address).map UInt64.toNat
      = Machine.checkedMul 64 address.toNat size.toNat := by
  have word : UInt64.size = 2 ^ 64 := rfl
  have wide : size.bytes.toUInt64.toNat = size.toNat := UInt32.toNat_toUInt64 _
  rw [offsetOf, checkedMul, Machine.checkedMul, wide, word]
  split
  · rename_i fits
    rw [Option.map_some, UInt64.toNat_mul, wide, Nat.mod_eq_of_lt fits]
  · rfl

/-- As many blocks as are counted hold the bytes, and no fewer do. -/
theorem isLeast_blocksFor (some_bytes : 0 < size.toNat) (count : UInt64) :
    IsLeast {k | count.toNat ≤ k * size.toNat} (size.blocksFor count).toNat := by
  have enough_iff : ∀ k, (size.blocksFor count).toNat ≤ k ↔ count.toNat ≤ k * size.toNat := by
    intro k
    rw [toNat_blocksFor some_bytes, Nat.le_mul_iff_le_left some_bytes]
  exact ⟨(enough_iff _).mp (Nat.le_refl _), fun k enough => (enough_iff k).mpr enough⟩

theorem blocksFor_runs (some_bytes : 0 < size.toNat) (count : UInt64) :
    Checked.blocksFor size count = .ok (size.blocksFor count).toNat := by
  rw [Checked.blocksFor, Machine.divCeil_eq some_bytes count.toNat_lt, toNat_blocksFor some_bytes]

theorem imageSource_runs (some_bytes : 0 < size.toNat) (image : Bytes) :
    (Checked.imageSource image size).run = .ok ((BlockSource.ofBytes image size).map fun source =>
      Checked.blocksOf image size source.blockCount) := by
  cases opened : BlockSource.ofBytes image size with
  | error e => exact Checked.imageSource_refused some_bytes opened
  | ok source => exact Checked.imageSource_opened some_bytes opened

/-- With blocks of no bytes neither count comes to an end. -/
theorem faults_of_zero (zero : size.toNat = 0) (count : UInt64) (image : Bytes) :
    Checked.blocksFor size count = .error .divisionByZero ∧
      (Checked.imageSource image size).run = .error .divisionByZero := by
  unfold Checked.blocksFor Checked.imageSource
  rw [zero]
  exact ⟨rfl, rfl⟩

/-- A size comes out of the check, or is the standard one, exactly if it is a power of two from 4096
to 65536; from its bare number it is read back whatever it is. Any size but zero serves: blocks are
counted up to the least number that is enough, and a source is laid over every image. With the size
zero both divide by zero. -/
theorem legal_unless_restored (size : BlockSize) :
    (((∃ word, ofWord word = .ok size) ∨ size = standard) ↔ Admissible size.bytes) ∧
    (∀ j, form.read j = some size ↔ j = .number (some size.toNat)) ∧
    (∀ address, (size.offsetOf address).map UInt64.toNat
      = Machine.checkedMul 64 address.toNat size.toNat) ∧
    (0 < size.toNat →
      (∀ count, Checked.blocksFor size count = .ok (size.blocksFor count).toNat ∧
        IsLeast {k | count.toNat ≤ k * size.toNat} (size.blocksFor count).toNat) ∧
      ∀ image, (Checked.imageSource image size).run
        = .ok ((BlockSource.ofBytes image size).map fun source =>
          Checked.blocksOf image size source.blockCount)) ∧
    (size.toNat = 0 → ∀ count image,
      Checked.blocksFor size count = .error .divisionByZero ∧
        (Checked.imageSource image size).run = .error .divisionByZero) := by
  refine ⟨checked_or_standard_iff, fun _ => read_form_iff, offsetOf_eq size, ?_, faults_of_zero⟩
  intro some_bytes
  refine ⟨fun count => ?_, imageSource_runs some_bytes⟩
  exact ⟨blocksFor_runs some_bytes count, isLeast_blocksFor some_bytes count⟩

/-- The text `0` is read back as a block size, with which bytes cannot be counted in blocks. -/
theorem restored_zero : Form.normalize form "0" = some "0" ∧ Obtained ⟨0⟩ ∧
    (¬∀ size, Obtained size → Admissible size.bytes) ∧
    Checked.blocksFor ⟨0⟩ 1 = .error .divisionByZero ∧
    (Checked.imageSource (Bytes.zeros 4096) ⟨0⟩).run = .error .divisionByZero := by
  have restored : Obtained ⟨0⟩ := .restored (j := .number (some 0)) rfl
  have zero : toNat ⟨0⟩ = 0 := rfl
  obtain ⟨count_faults, source_faults⟩ := faults_of_zero zero 1 (Bytes.zeros 4096)
  refine ⟨by decide, restored, fun always => ?_, count_faults, source_faults⟩
  obtain ⟨-, least, -⟩ := always _ restored
  exact absurd least (by decide)

end BlockSize

end ObjectStore
