import ObjectStore.BlockSize
import ObjectStore.StoreError

/-
Devices addressed by byte. A read returns exactly the bytes asked for or fails.
-/
namespace ObjectStore

structure Device where
  length : Nat
  read : UInt64 → Nat → Except StoreError Bytes

namespace Device

def checkRange (offset : UInt64) (len deviceLength : Nat) : Except StoreError Unit :=
  if Bytes.addressLimit ≤ offset.toNat + len then .error (.format "read range overflows u64")
  else if deviceLength < offset.toNat + len then
    .error (.format s!"read out of bounds: offset={offset} len={len} device_len={deviceLength}")
  else .ok ()

def ofBytes (image : Bytes) : Device where
  length := image.size
  read offset len := do
    checkRange offset len image.size
    return image.extract offset.toNat (offset.toNat + len)

/-- The smallest block that a container superblock can fill, from the start of the device. -/
def superblockRegion (d : Device) : Except StoreError Bytes := d.read 0 minimumBlockSize.toNat

end Device

end ObjectStore
