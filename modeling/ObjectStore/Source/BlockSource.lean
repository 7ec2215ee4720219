import ObjectStore.Source.Device

/-
Sources of blocks. Ranges of blocks and parts of blocks can always be read block by block; a
source on a device reads them at once.
-/
namespace ObjectStore

structure BlockSource (m : Type → Type) where
  blockSize : UInt32
  blockCount : UInt64
  readBlock : BlockAddress → m Bytes
  readRange : BlockAddress → UInt32 → m Bytes
  readBytes : BlockAddress → UInt32 → UInt32 → m Bytes

namespace BlockSource

/-- A part of a block must end inside it. -/
def checkPart (address : BlockAddress) (offset len blockSize : UInt32) :
    Except StoreError Unit :=
  if offset.toNat + len.toNat ≤ blockSize.toNat then .ok ()
  else .error (.truncated address s!"byte range {offset}+{len} exceeds block size {blockSize}")

section Default

variable {m : Type → Type} [Monad m] [MonadExceptOf StoreError m]

/-- The blocks numbered `i` and on behind `start`, appended to `before`. -/
def readEach (blockCount : UInt64) (readBlock : BlockAddress → m Bytes) (start : BlockAddress)
    (i : UInt64) (before : Bytes) : Nat → m Bytes
  | 0 => return before
  | more + 1 =>
    match checkedAdd start i with
    | none => throw (.outOfRange start blockCount)
    | some address => do
        let block ← readBlock address
        readEach blockCount readBlock start (i + 1) (before ++ block) more

def cutBytes (blockSize : UInt32) (readBlock : BlockAddress → m Bytes)
    (address : BlockAddress) (offset len : UInt32) : m Bytes := do
  ofExcept (checkPart address offset len blockSize)
  let block ← readBlock address
  let start := offset.toNat
  let stop := start + len.toNat
  if block.size < stop then
    throw (.truncated address s!"block read returned {block.size} bytes, wanted {start}..{stop}")
  return block.extract start stop

def ofReadBlock (blockSize : UInt32) (blockCount : UInt64)
    (readBlock : BlockAddress → m Bytes) : BlockSource m where
  blockSize := blockSize
  blockCount := blockCount
  readBlock := readBlock
  readRange start count := readEach blockCount readBlock start 0 ByteArray.empty count.toNat
  readBytes := cutBytes blockSize readBlock

/-- The same source, reading every range and part by whole blocks. -/
def blockwise (s : BlockSource m) : BlockSource m :=
  ofReadBlock s.blockSize s.blockCount s.readBlock

end Default

/-- Where the range of `count` blocks from `start` begins, if the source has all of them. -/
def offsetOf (size : BlockSize) (blockCount : UInt64) (start : BlockAddress) (count : Nat) :
    Except StoreError UInt64 :=
  if start.toNat + count ≤ blockCount.toNat then
    match size.offsetOf start with
    | some offset => .ok offset
    | none => .error (.outOfRange start blockCount)
  else .error (.outOfRange start blockCount)

/-- The blocks of a device, whose length has to be a whole number of them. -/
def ofDevice (d : Device) (size : BlockSize) :
    Except StoreError (BlockSource (Except StoreError)) :=
  let remainder := d.length % size.toNat
  if remainder ≠ 0 then
    .error (.format (s!"image length is not block-aligned: len_bytes={d.length}" ++
      s!" block_size={size.text} remainder={remainder}"))
  else
    let blockCount := (d.length / size.toNat).toUInt64
    .ok {
      blockSize := size.bytes
      blockCount := blockCount
      readBlock := fun address => do
        d.read (← offsetOf size blockCount address 1) size.toNat
      readRange := fun start count => do
        d.read (← offsetOf size blockCount start count.toNat) (size.toNat * count.toNat)
      readBytes := fun address offset len => do
        checkPart address offset len size.bytes
        d.read ((← offsetOf size blockCount address 1) + offset.toUInt64) len.toNat }

def ofBytes (image : Bytes) (size : BlockSize) :
    Except StoreError (BlockSource (Except StoreError)) :=
  ofDevice (.ofBytes image) size

end BlockSource

end ObjectStore
