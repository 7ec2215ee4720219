import ObjectStore.BlockSize
import ObjectStore.Object.Header

/-
The container superblock: the geometry of the container, the two checkpoint areas with the part
of them that belongs to this checkpoint, and the identifiers of what hangs below it.
-/
namespace ObjectStore

structure Superblock where
  header : ObjectHeader
  blockSize : UInt32
  blockCount : UInt64
  features : UInt64
  readonlyFeatures : UInt64
  incompatibleFeatures : UInt64
  uuid : FixedBytes 16
  nextOid : ObjectId
  nextXid : TransactionId
  descBlocksWord : UInt32
  dataBlocksWord : UInt32
  descBase : BlockAddress
  dataBase : BlockAddress
  descNext : UInt32
  dataNext : UInt32
  descIndex : UInt32
  descLength : UInt32
  dataIndex : UInt32
  dataLength : UInt32
  spaceManagerOid : ObjectId
  /-- The block of the container's object map, zero for none. -/
  objectMap : BlockAddress
  reaperOid : ObjectId
  testType : UInt32
  maxVolumes : UInt32
  /-- Volumes by slot; an unused slot is zero. -/
  volumes : List ObjectId
  deriving DecidableEq

namespace Superblock

def volumeSlots : Nat := 100

/-- A superblock behind its magic number. -/
def codec : Codec (UInt32 × Superblock) :=
  (ObjectHeader.codec.seq <| Codec.word32.seq <| Codec.word32.seq <| Codec.word64.seq <|
      Codec.word64.seq <| Codec.word64.seq <| Codec.word64.seq <| (Codec.raw 16).seq <|
      Codec.word64.seq <| Codec.word64.seq <| Codec.word32.seq <| Codec.word32.seq <|
      Codec.word64.seq <| Codec.word64.seq <| Codec.word32.seq <| Codec.word32.seq <|
      Codec.word32.seq <| Codec.word32.seq <| Codec.word32.seq <| Codec.word32.seq <|
      Codec.word64.seq <| Codec.word64.seq <| Codec.word64.seq <| Codec.word32.seq <|
      Codec.word32.seq <| Codec.word64.table 0 volumeSlots).map
    (fun (header, magic, blockSize, blockCount, features, readonlyFeatures,
        incompatibleFeatures, uuid, nextOid, nextXid, descBlocks, dataBlocks, descBase,
        dataBase, descNext, dataNext, descIndex, descLength, dataIndex, dataLength,
        spaceManager, objectMap, reaper, testType, maxVolumes, volumes) =>
      (magic, ⟨header, blockSize, blockCount, features, readonlyFeatures,
        incompatibleFeatures, uuid, nextOid, nextXid, descBlocks, dataBlocks, descBase,
        dataBase, descNext, dataNext, descIndex, descLength, dataIndex, dataLength,
        spaceManager, objectMap, reaper, testType, maxVolumes, volumes⟩))
    (fun (magic, s) =>
      (s.header, magic, s.blockSize, s.blockCount, s.features, s.readonlyFeatures,
        s.incompatibleFeatures, s.uuid, s.nextOid, s.nextXid, s.descBlocksWord,
        s.dataBlocksWord, s.descBase, s.dataBase, s.descNext, s.dataNext, s.descIndex,
        s.descLength, s.dataIndex, s.dataLength, s.spaceManagerOid, s.objectMap, s.reaperOid,
        s.testType, s.maxVolumes, s.volumes))

def magicOffset : Nat := 0x20

/-- The byte order in which the magic number of a block is written. -/
def detectOrder (block : Bytes) : Except DecodeError ByteOrder := do
  let magic := (← Bytes.slice block magicOffset 4).data.toList
  match ByteOrder.ofMagic? magic with
  | some e => return e
  | none => throw (.invalidMagic containerMagic.toUInt64 (ByteOrder.little.wordOf magic))

def parse (e : ByteOrder) (block : Bytes) : Except DecodeError Superblock := do
  let (magic, s) ← codec.decode e block
  if magic ≠ containerMagic then
    throw (.invalidMagic containerMagic.toUInt64 magic.toUInt64)
  s.header.expectCode TypeWord.containerSuperblock
  let _ ← BlockSize.ofWord s.blockSize
  if volumeSlots < s.maxVolumes.toNat then
    throw (.invalidField "nx_max_file_systems" "exceeds NX_MAX_FILE_SYSTEMS")
  return s

/-- Writes every field, with the checksum as the header has it. -/
def encode (e : ByteOrder) (s : Superblock) : Encoder Unit := do
  if volumeSlots < s.volumes.length then
    throw (.invalidField "nx_fs_oid" "exceeds NX_MAX_FILE_SYSTEMS")
  codec.write e 0 (containerMagic, s)

/-- Set in the size of a checkpoint area that is not one run of blocks. -/
def scatteredFlag : UInt32 := 0x80000000

def descBlocks (s : Superblock) : UInt32 := s.descBlocksWord &&& ~~~scatteredFlag

def isDescContiguous (s : Superblock) : Bool := !hasFlag s.descBlocksWord scatteredFlag

/-- The address of a slot of the ring, counted from its start. -/
def descBlock (s : Superblock) (slot : UInt32) : Option BlockAddress :=
  if s.descBlocks = 0 then none
  else checkedAdd s.descBase (slot % s.descBlocks).toUInt64

/-- The address of a block of this checkpoint, counted from where it starts in the ring. -/
def checkpointBlock (s : Superblock) (i : UInt32) : Option BlockAddress :=
  if s.descBlocks = 0 then none
  else checkedAdd s.descBase
    ((s.descIndex.toUInt64 + i.toUInt64) % s.descBlocks.toUInt64)

def volumeOid (s : Superblock) (slot : Nat) : Option ObjectId :=
  if slot < s.maxVolumes.toNat then s.volumes[slot]?.filter (· != 0) else none

def usedSlots (s : Superblock) : List Nat :=
  (List.range s.maxVolumes.toNat).filter fun slot => (s.volumeOid slot).isSome

def volumeOids (s : Superblock) : List ObjectId :=
  (List.range s.maxVolumes.toNat).filterMap s.volumeOid

def fusionFlag : UInt64 := 0x100

def isFusion (s : Superblock) : Bool := s.incompatibleFeatures &&& fusionFlag != 0

end Superblock

end ObjectStore
