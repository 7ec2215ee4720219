import ObjectStore.Checkpoint.MapBlock
import ObjectStore.Container
import ObjectStore.Draft.Node
import ObjectStore.ObjectMap.Descriptor
import ObjectStore.Superblock

/-
Objects to be built, each in a block of its own with its checksum.
-/
namespace ObjectStore.ObjectDraft

def header (oid : ObjectId) (xid : TransactionId) (typeWord subtype : UInt32) : ObjectHeader :=
  ⟨0, oid, xid, typeWord, subtype⟩

/-- A buffer of zeros on which `w` writes, with the checksum of what it has written. -/
def sealedBlock (e : ByteOrder) (size : Nat) (w : Encoder Unit) : Except BuildError Bytes :=
  Encoder.onZeros (do w; Object.writeChecksum e) size

def raw (e : ByteOrder) (size : Nat) (h : ObjectHeader) (payload : Bytes) :
    Except BuildError Bytes :=
  if size < ObjectHeader.size + payload.size then .error (.payloadRoom payload.size size)
  else sealedBlock e size do
    h.encode e
    Encoder.write ObjectHeader.size payload

/-- The snapshot tree of an object map: its root, the number of snapshots and the latest. -/
structure SnapshotTree where
  root : BlockAddress
  count : UInt32
  latest : TransactionId
  deriving DecidableEq

/-- The descriptor of an object map with physical trees. -/
def mapDescriptor (e : ByteOrder) (size : Nat) (address : BlockAddress) (xid : TransactionId)
    (tree : BlockAddress) (snapshots : Option SnapshotTree) : Except BuildError Bytes :=
  let s := snapshots.getD ⟨0, 0, 0⟩
  let treeType := TypeWord.tree ||| TypeWord.physicalFlag
  let d : MapDescriptor := {
    header := header address xid (TypeWord.objectMap ||| TypeWord.physicalFlag) 0
    flags := 0
    snapshotCount := s.count
    treeType := treeType
    snapshotTreeType := treeType
    treeOid := tree
    snapshotTreeOid := s.root
    mostRecentSnapshot := s.latest
    pendingRevertMin := 0
    pendingRevertMax := 0 }
  sealedBlock e size (d.encode e)

/-- The map block for a group of mappings, the number `index` of its chain. -/
def mapBlock (e : ByteOrder) (size : Nat) (xid : TransactionId) (index : Nat)
    (address : BlockAddress) (last : Bool) (mappings : List EphemeralMapping) :
    Except BuildError Bytes := do
  let capacity := MapBlock.capacity size
  if capacity < mappings.length then throw (.chainRoom index mappings.length capacity)
  let block : MapBlock := {
    header := header address xid (TypeWord.checkpointMap ||| TypeWord.physicalFlag) 0
    flags := if last then MapBlock.lastFlag else 0
    mappings := mappings }
  let bytes ← (Encoder.onZeros (block.encode e) size).mapError (.chainBlock index)
  ((Object.writeChecksum e).apply bytes).mapError .decode

/-- The map blocks for groups of mappings; the last is flagged if `markLast` says so. -/
def mapChain (e : ByteOrder) (size : Nat) (xid : TransactionId)
    (addresses : List BlockAddress) (groups : List (List EphemeralMapping)) (markLast : Bool) :
    Except BuildError (List Bytes) := do
  if addresses.length ≠ groups.length then
    throw (.chainLength addresses.length groups.length)
  (addresses.zip groups).zipIdx.mapM fun ((address, mappings), index) =>
    mapBlock e size xid index address (markLast && index + 1 == groups.length) mappings

def ephemeralMapping (oid : ObjectId) (objectType size : UInt32) (address : BlockAddress) :
    EphemeralMapping :=
  ⟨objectType ||| TypeWord.ephemeralFlag, 0, size, 0, oid, address⟩

def formatVersion : UInt64 := 0x02

/-- The superblock of a container without checkpoint areas, object map or volumes. -/
def blankSuperblock (blockSize : UInt32) (blockCount : UInt64) (xid : TransactionId) :
    Superblock where
  header := header 1 xid (TypeWord.containerSuperblock ||| TypeWord.ephemeralFlag) 0
  blockSize := blockSize
  blockCount := blockCount
  features := 0
  readonlyFeatures := 0
  incompatibleFeatures := formatVersion
  uuid := Bytes.fixed 16 (Bytes.ofList (List.replicate 16 0x5A))
  nextOid := 0x10000
  nextXid := xid + 1
  descBlocksWord := 0
  dataBlocksWord := 0
  descBase := 0
  dataBase := 0
  descNext := 0
  dataNext := 0
  descIndex := 0
  descLength := 0
  dataIndex := 0
  dataLength := 0
  spaceManagerOid := 0
  objectMap := 0
  reaperOid := 0
  testType := 0
  maxVolumes := Superblock.volumeSlots.toUInt32
  volumes := []

def superblock (e : ByteOrder) (size : Nat) (s : Superblock) : Except BuildError Bytes :=
  sealedBlock e size (s.encode e)

def volume (e : ByteOrder) (size : Nat) (oid : ObjectId) (xid : TransactionId) (slot : UInt32) :
    Except BuildError Bytes :=
  raw e size (header oid xid TypeWord.volumeSuperblock 0)
    (Bytes.ofList (e.bytesOf .four volumeMagic.toUInt64 ++ e.bytesOf .four slot.toUInt64))

end ObjectStore.ObjectDraft
