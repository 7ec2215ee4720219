import Mathlib.Data.Nat.ModEq
import ObjectStore.Superblock

/-
The slots of the ring of checkpoint descriptors and where they lie. The place of a block is taken
from numbers, whatever words they are computed in: a slot has an address unless the ring reaches
the end of the address space before it.
-/
namespace ObjectStore

theorem checkedAdd_eq_some_iff {a b c : UInt64} :
    checkedAdd a b = some c ↔ c.toNat = a.toNat + b.toNat := by
  have sum : (a + b).toNat = (a.toNat + b.toNat) % UInt64.size := UInt64.toNat_add a b
  unfold checkedAdd
  split
  · rename_i fits
    rw [Nat.mod_eq_of_lt fits] at sum
    rw [Option.some_inj, ← UInt64.toNat_inj, sum, eq_comm]
  · rename_i beyond
    have c_lt : c.toNat < UInt64.size := c.toNat_lt
    exact iff_of_false (fun same => nomatch same) (by omega)

namespace Superblock

variable {s : Superblock} {i j : UInt32} {address : BlockAddress}

def slotOf (s : Superblock) (i : UInt32) : Nat :=
  (s.descIndex.toNat + i.toNat) % s.descBlocks.toNat

theorem descBlocks_pos (ring : s.descBlocks ≠ 0) : 0 < s.descBlocks.toNat :=
  Nat.pos_of_ne_zero fun zero => ring (UInt32.toNat_inj.mp zero)

theorem slotOf_lt (ring : s.descBlocks ≠ 0) (i : UInt32) : s.slotOf i < s.descBlocks.toNat :=
  Nat.mod_lt _ (descBlocks_pos ring)

/-- Within one turn no slot comes twice. -/
theorem slotOf_inj (hi : i.toNat < s.descBlocks.toNat) (hj : j.toNat < s.descBlocks.toNat)
    (same : s.slotOf i = s.slotOf j) : i = j := by
  have congruent : Nat.ModEq s.descBlocks.toNat i.toNat j.toNat :=
    Nat.ModEq.add_left_cancel' s.descIndex.toNat same
  exact UInt32.toNat_inj.mp (congruent.eq_of_lt_of_lt hi hj)

/-- The sum of two words of 32 bits is far from the end of a word of 64. -/
theorem toNat_ringSlot (s : Superblock) (i : UInt32) :
    ((s.descIndex.toUInt64 + i.toUInt64) % s.descBlocks.toUInt64).toNat = s.slotOf i := by
  have index_lt := s.descIndex.toNat_lt
  have i_lt := i.toNat_lt
  have sum_lt : s.descIndex.toNat + i.toNat < 2 ^ 64 := by omega
  rw [UInt64.toNat_mod, UInt64.toNat_add, UInt32.toNat_toUInt64, UInt32.toNat_toUInt64,
    UInt32.toNat_toUInt64, Nat.mod_eq_of_lt sum_lt, slotOf]

theorem checkpointBlock_eq_some_iff (ring : s.descBlocks ≠ 0) :
    s.checkpointBlock i = some address ↔
      address.toNat = s.descBase.toNat + s.slotOf i := by
  rw [checkpointBlock, if_neg ring, checkedAdd_eq_some_iff, toNat_ringSlot]

theorem descBlock_eq_some_iff (ring : s.descBlocks ≠ 0) {slot : UInt32} :
    s.descBlock slot = some address ↔
      address.toNat = s.descBase.toNat + slot.toNat % s.descBlocks.toNat := by
  rw [descBlock, if_neg ring, checkedAdd_eq_some_iff, UInt32.toNat_toUInt64, UInt32.toNat_mod]

/-- Both addresses that a ring has for a block are one. -/
theorem checkpointBlock_eq_descBlock (ring : s.descBlocks ≠ 0) (i : UInt32) :
    s.checkpointBlock i = s.descBlock (s.slotOf i).toUInt32 := by
  have slot_lt := slotOf_lt ring i
  have slot_eq : (s.slotOf i).toUInt32.toNat = s.slotOf i :=
    Nat.mod_eq_of_lt (Nat.lt_trans slot_lt s.descBlocks.toNat_lt)
  apply Option.ext
  intro address
  rw [checkpointBlock_eq_some_iff ring, descBlock_eq_some_iff ring, slot_eq,
    Nat.mod_eq_of_lt slot_lt]

end Superblock

end ObjectStore
