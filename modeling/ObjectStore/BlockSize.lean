import ObjectStore.Bytes.Order
import ObjectStore.Object.Reference

/-
Block sizes. `BlockSize.ofWord` admits the powers of two that a container may use; the bare
constructor admits any word, which is what a block size read back from its text form may be.
-/
namespace ObjectStore

def minimumBlockSize : UInt32 := 4096

structure BlockSize where
  bytes : UInt32
  deriving DecidableEq, Repr

namespace BlockSize

def legal : List UInt32 := [4096, 8192, 16384, 32768, 65536]

def ofWord (size : UInt32) : Except DecodeError BlockSize :=
  if size ∈ legal then .ok ⟨size⟩
  else .error (.invalidField "block_size" "must be power of two in 4096..=65536")

def standard : BlockSize := ⟨minimumBlockSize⟩

def toNat (size : BlockSize) : Nat := size.bytes.toNat

def text (size : BlockSize) : String := toString size.bytes

/-- The offset of a block's first byte, unless it needs more than 64 bits. -/
def offsetOf (size : BlockSize) (block : BlockAddress) : Option UInt64 :=
  checkedMul block size.bytes.toUInt64

/-- How many whole blocks hold `count` bytes. -/
def blocksFor (size : BlockSize) (count : UInt64) : UInt64 :=
  let blocks := count / size.bytes.toUInt64
  if count % size.bytes.toUInt64 = 0 then blocks else blocks + 1

end BlockSize

end ObjectStore
