import ObjectStore.Proofs.Buffers
import ObjectStore.Proofs.Outcomes
import ObjectStore.Proofs.Runs
import ObjectStore.Resolver

/-
What is read from an image in memory: the contents of consecutive blocks, all of them inside the
image, while the reader's memory only grows by a note of the call.
-/
namespace ObjectStore

def Bytes.blocks (image : Bytes) (size start count : Nat) : Bytes :=
  image.extract (start * size) ((start + count) * size)

structure Bytes.HoldsBlocks (image : Bytes) (size start count : Nat) (b : Bytes) : Prop where
  bytes_eq : b = image.blocks size start count
  inside : (start + count) * size ≤ image.size
  sized : 0 < count → 0 < size

theorem Bytes.HoldsBlocks.length_eq {image b : Bytes} {size start count : Nat}
    (held : image.HoldsBlocks size start count b) : b.size = count * size := by
  have inside := held.inside
  rw [held.bytes_eq, Bytes.blocks, Bytes.size_extract_of_le inside, Nat.add_mul,
    Nat.add_sub_cancel_left]

theorem Bytes.HoldsBlocks.byte_eq {image b : Bytes} {size start count : Nat}
    (held : image.HoldsBlocks size start count b) {i : Nat} (lt : i < count * size) :
    b.getPadded i = image.getPadded (start * size + i) := by
  rw [held.bytes_eq, Bytes.blocks, Bytes.getPadded_extract (by rw [Nat.add_mul]; omega)]

namespace BlockSource

variable {image : Bytes} {size : BlockSize} {source : BlockSource (Except StoreError)}

theorem offsetOf_eq_ok {blockCount : UInt64} {start : BlockAddress} {count : Nat} {offset : UInt64}
    (found : offsetOf size blockCount start count = .ok offset) :
    offset.toNat = start.toNat * size.toNat ∧ start.toNat + count ≤ blockCount.toNat := by
  unfold offsetOf at found
  split at found
  · rename_i inside
    rw [BlockSize.offsetOf, checkedMul] at found
    have widened : size.bytes.toUInt64.toNat = size.toNat := UInt32.toNat_toUInt64 _
    rw [widened] at found
    split at found
    · rename_i offset' same
      cases found
      split at same
      · rename_i small
        have limit : UInt64.size = 18446744073709551616 := rfl
        cases same
        rw [UInt64.toNat_mul, widened]
        exact ⟨Nat.mod_eq_of_lt (by omega), inside⟩
      · cases same
    · cases found
  · cases found

theorem checkRange_eq_ok {offset : UInt64} {len length : Nat} :
    Device.checkRange offset len length = .ok () ↔
      offset.toNat + len < Bytes.addressLimit ∧ offset.toNat + len ≤ length := by
  unfold Device.checkRange
  split
  · exact iff_of_false (fun same => nomatch same) (by omega)
  · split
    · exact iff_of_false (fun same => nomatch same) (by omega)
    · exact iff_of_true rfl (by omega)

theorem checkPart_eq_ok {address : BlockAddress} {offset len blockSize : UInt32} {u : Unit} :
    checkPart address offset len blockSize = .ok u ↔
      offset.toNat + len.toNat ≤ blockSize.toNat := by
  unfold checkPart
  split
  · rename_i inside
    exact iff_of_true rfl inside
  · rename_i long
    exact iff_of_false (fun same => nomatch same) long

theorem device_read_inside {offset : UInt64} {len : Nat} (inside : offset.toNat + len ≤ image.size)
    (addressable : offset.toNat + len < Bytes.addressLimit) :
    (Device.ofBytes image).read offset len
      = .ok (image.extract offset.toNat (offset.toNat + len)) := by
  rw [Device.ofBytes]
  dsimp only
  rw [checkRange_eq_ok.mpr ⟨addressable, inside⟩, ok_bind]
  rfl

theorem read_eq_ok {offset : UInt64} {len : Nat} {b : Bytes}
    (read : (Device.ofBytes image).read offset len = .ok b) :
    b = image.extract offset.toNat (offset.toNat + len) ∧ offset.toNat + len ≤ image.size ∧
      offset.toNat + len < Bytes.addressLimit := by
  obtain ⟨_, checked, same⟩ := bind_eq_ok.mp read
  cases same
  obtain ⟨addressable, inside⟩ := checkRange_eq_ok.mp checked
  exact ⟨rfl, inside, addressable⟩

theorem holds_of_read {blockCount : UInt64} {start : BlockAddress} {count len : Nat} {b : Bytes}
    (counted : blockCount = (image.size / size.toNat).toUInt64)
    (len_eq : len = count * size.toNat)
    (read : (do
      (Device.ofBytes image).read (← offsetOf size blockCount start count) len) = .ok b) :
    image.HoldsBlocks size.toNat start.toNat count b := by
  obtain ⟨offset, found, read⟩ := bind_eq_ok.mp read
  obtain ⟨offset_eq, within⟩ := offsetOf_eq_ok found
  obtain ⟨bytes_eq, inside, -⟩ := read_eq_ok read
  have stop : offset.toNat + len = (start.toNat + count) * size.toNat := by
    rw [offset_eq, len_eq, Nat.add_mul]
  rw [stop, offset_eq] at bytes_eq
  refine ⟨bytes_eq, stop ▸ inside, fun some_blocks => ?_⟩
  by_cases empty : size.toNat = 0
  · have none : blockCount.toNat = 0 := by
      rw [counted, empty, Nat.div_zero]
      rfl
    omega
  · omega

theorem ofBytes_eq_ok (opened : ofBytes image size = .ok source) :
    image.size % size.toNat = 0 ∧ source.blockSize = size.bytes ∧
      source.blockCount = (image.size / size.toNat).toUInt64 ∧
      source.readBlock = (fun address => do
        (Device.ofBytes image).read (← offsetOf size source.blockCount address 1) size.toNat) ∧
      source.readRange = (fun start count => do
        (Device.ofBytes image).read (← offsetOf size source.blockCount start count.toNat)
          (size.toNat * count.toNat)) := by
  rw [ofBytes, ofDevice] at opened
  dsimp only at opened
  split at opened
  · cases opened
  · rename_i whole
    cases opened
    exact ⟨Decidable.not_not.mp whole, rfl, rfl, rfl, rfl⟩

theorem readBlock_holds (opened : ofBytes image size = .ok source) {address : BlockAddress}
    {b : Bytes} (read : source.readBlock address = .ok b) :
    image.HoldsBlocks size.toNat address.toNat 1 b := by
  obtain ⟨-, -, counted, readBlock, -⟩ := ofBytes_eq_ok opened
  rw [readBlock] at read
  exact holds_of_read counted (Nat.one_mul _).symm read

theorem readRange_holds (opened : ofBytes image size = .ok source) {start : BlockAddress}
    {count : UInt32} {b : Bytes} (read : source.readRange start count = .ok b) :
    image.HoldsBlocks size.toNat start.toNat count.toNat b := by
  obtain ⟨-, -, counted, -, readRange⟩ := ofBytes_eq_ok opened
  rw [readRange] at read
  exact holds_of_read counted (Nat.mul_comm _ _) read

/-- A source counts all blocks of its image. -/
theorem blockCount_mul (opened : ofBytes image size = .ok source)
    (addressable : image.size < Bytes.addressLimit) :
    source.blockCount.toNat * size.toNat = image.size := by
  obtain ⟨whole, -, counted, -, -⟩ := ofBytes_eq_ok opened
  have limit : Bytes.addressLimit = 18446744073709551616 := rfl
  have word : UInt64.size = 18446744073709551616 := rfl
  have few : image.size / size.toNat ≤ image.size := Nat.div_le_self _ _
  have count_eq : source.blockCount.toNat = image.size / size.toNat := by
    rw [counted]
    exact Nat.mod_eq_of_lt (by omega)
  have parts := Nat.div_add_mod image.size size.toNat
  rw [count_eq, Nat.mul_comm]
  omega

/-- Every range of blocks that a source counts begins and ends in its image. -/
theorem offsetOf_inside (opened : ofBytes image size = .ok source)
    (addressable : image.size < Bytes.addressLimit) {start : BlockAddress} {count : Nat}
    (inside : start.toNat + count ≤ source.blockCount.toNat) : ∃ offset,
    offsetOf size source.blockCount start count = .ok offset ∧
      offset.toNat = start.toNat * size.toNat ∧
      offset.toNat + count * size.toNat ≤ image.size := by
  have limit : Bytes.addressLimit = UInt64.size := rfl
  have word : UInt64.size = 2 ^ 64 := rfl
  have stop_le : (start.toNat + count) * size.toNat ≤ image.size := by
    rw [← blockCount_mul opened addressable]
    exact Nat.mul_le_mul_right _ inside
  rw [Nat.add_mul] at stop_le
  have widened : size.bytes.toUInt64.toNat = size.toNat := UInt32.toNat_toUInt64 _
  have offset_eq : (start * size.bytes.toUInt64).toNat = start.toNat * size.toNat := by
    rw [UInt64.toNat_mul, widened]
    exact Nat.mod_eq_of_lt (by omega)
  refine ⟨start * size.bytes.toUInt64, ?_, offset_eq, offset_eq ▸ stop_le⟩
  rw [offsetOf, if_pos inside, BlockSize.offsetOf, checkedMul, widened, if_pos (by omega)]

theorem offsetOf_beyond {blockCount : UInt64} {start : BlockAddress} {count : Nat}
    (beyond : blockCount.toNat < start.toNat + count) :
    offsetOf size blockCount start count = .error (.outOfRange start blockCount) :=
  if_neg (Nat.not_le.mpr beyond)

/-- Every block that a source counts can be read, as long as addresses suffice for the image. -/
theorem readBlock_eq (opened : ofBytes image size = .ok source)
    (addressable : image.size < Bytes.addressLimit) {address : BlockAddress}
    (inside : address.toNat < source.blockCount.toNat) :
    source.readBlock address = .ok (image.blocks size.toNat address.toNat 1) := by
  obtain ⟨-, -, -, readBlock, -⟩ := ofBytes_eq_ok opened
  have within : address.toNat + 1 ≤ source.blockCount.toNat := inside
  obtain ⟨offset, found, offset_eq, stop_le⟩ := offsetOf_inside opened addressable within
  rw [Nat.one_mul] at stop_le
  have in_range : offset.toNat + size.toNat < Bytes.addressLimit := by omega
  rw [readBlock]
  dsimp only
  rw [found, ok_bind, device_read_inside stop_le in_range, offset_eq, Bytes.blocks, Nat.add_mul,
    Nat.one_mul]

theorem readBlock_beyond (opened : ofBytes image size = .ok source) {address : BlockAddress}
    (beyond : source.blockCount.toNat ≤ address.toNat) :
    source.readBlock address = .error (.outOfRange address source.blockCount) := by
  obtain ⟨-, -, -, readBlock, -⟩ := ofBytes_eq_ok opened
  rw [readBlock]
  dsimp only
  rw [offsetOf_beyond (by omega)]
  rfl

/-- So can every range of blocks, down to the empty one behind the last block. -/
theorem readRange_eq (opened : ofBytes image size = .ok source)
    (addressable : image.size < Bytes.addressLimit) {start : BlockAddress} {count : UInt32}
    (inside : start.toNat + count.toNat ≤ source.blockCount.toNat) :
    source.readRange start count = .ok (image.blocks size.toNat start.toNat count.toNat) := by
  obtain ⟨-, -, -, -, readRange⟩ := ofBytes_eq_ok opened
  obtain ⟨offset, found, offset_eq, stop_le⟩ := offsetOf_inside opened addressable inside
  rw [Nat.mul_comm] at stop_le
  have in_range : offset.toNat + size.toNat * count.toNat < Bytes.addressLimit := by omega
  rw [readRange]
  dsimp only
  rw [found, ok_bind, device_read_inside stop_le in_range, offset_eq, Bytes.blocks, Nat.add_mul,
    Nat.mul_comm count.toNat]

theorem readBytes_eq (opened : ofBytes image size = .ok source) {address : BlockAddress}
    {offset len : UInt32} : source.readBytes address offset len = (do
      checkPart address offset len size.bytes
      (Device.ofBytes image).read ((← offsetOf size source.blockCount address 1)
        + offset.toUInt64) len.toNat) := by
  rw [ofBytes, ofDevice] at opened
  dsimp only at opened
  split at opened
  · cases opened
  · cases opened
    rfl

/-- A part of a block that can be read is read as it is cut out of the block. -/
theorem readBytes_of_readBlock (opened : ofBytes image size = .ok source) {address : BlockAddress}
    {b : Bytes} (read : source.readBlock address = .ok b) {offset len : UInt32}
    (part : offset.toNat + len.toNat ≤ size.toNat) : source.readBytes address offset len
      = .ok (b.extract offset.toNat (offset.toNat + len.toNat)) := by
  rw [(ofBytes_eq_ok opened).2.2.2.1] at read
  obtain ⟨start, found, read⟩ := bind_eq_ok.mp read
  obtain ⟨bytes_eq, inside, addressable⟩ := read_eq_ok read
  have limit : Bytes.addressLimit = 18446744073709551616 := rfl
  have place : (start + offset.toUInt64).toNat = start.toNat + offset.toNat := by
    rw [UInt64.toNat_add, UInt32.toNat_toUInt64]
    exact Nat.mod_eq_of_lt (by omega)
  have checked : checkPart address offset len size.bytes = .ok () := checkPart_eq_ok.mpr part
  rw [readBytes_eq opened, checked, ok_bind, found, ok_bind,
    device_read_inside (by omega) (by omega), place, bytes_eq, ByteArray.extract_extract]
  congr 2
  omega

/-- A range that goes on behind the last block is refused. -/
theorem readRange_beyond (opened : ofBytes image size = .ok source) {start : BlockAddress}
    {count : UInt32} (beyond : source.blockCount.toNat < start.toNat + count.toNat) :
    source.readRange start count = .error (.outOfRange start source.blockCount) := by
  obtain ⟨-, -, -, -, readRange⟩ := ofBytes_eq_ok opened
  rw [readRange]
  dsimp only
  rw [offsetOf_beyond beyond]
  rfl

theorem perform_remembered_block (s : BlockSource (Except StoreError)) (address : BlockAddress)
    (memory : Memory) : (s.remembered.readBlock address).perform memory
      = (s.readBlock address, memory.note (.block address)) := by
  change ((Session.change (Memory.note (.block address)) >>= fun _ =>
    (ofExcept (s.readBlock address) : Reading Bytes))).perform memory = _
  rw [Session.perform_bind]
  cases s.readBlock address <;> rfl

theorem perform_remembered_bytes (s : BlockSource (Except StoreError)) (address : BlockAddress)
    (offset len : UInt32) (memory : Memory) :
    (s.remembered.readBytes address offset len).perform memory
      = (s.readBytes address offset len, memory.note (.bytes address offset len)) := by
  change ((Session.change (Memory.note (.bytes address offset len)) >>= fun _ =>
    (ofExcept (s.readBytes address offset len) : Reading Bytes))).perform memory = _
  rw [Session.perform_bind]
  cases s.readBytes address offset len <;> rfl

theorem perform_remembered_range (s : BlockSource (Except StoreError)) (start : BlockAddress)
    (count : UInt32) (memory : Memory) : (s.remembered.readRange start count).perform memory
      = (s.readRange start count, memory.note (.range start count)) := by
  change ((Session.change (Memory.note (.range start count)) >>= fun _ =>
    (ofExcept (s.readRange start count) : Reading Bytes))).perform memory = _
  rw [Session.perform_bind]
  cases s.readRange start count <;> rfl

end BlockSource

end ObjectStore
