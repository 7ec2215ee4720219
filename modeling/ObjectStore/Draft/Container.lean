import ObjectStore.Draft.Image
import ObjectStore.Draft.Object
import ObjectStore.Draft.Tree

/-
Containers to be built. The first block holds a superblock, the descriptor ring and the data
area of the checkpoint follow, then the object map with its trees and, well behind them, the
virtual objects.
-/
namespace ObjectStore

/-- A virtual object to be built, and the flags of its mapping. -/
structure ObjectPlan where
  oid : ObjectId
  xid : TransactionId
  objectType : UInt32
  mappingFlags : UInt32
  deriving DecidableEq

structure ContainerDraft where
  order : ByteOrder
  blockSize : UInt32
  xid : TransactionId
  /-- The slot of the descriptor ring in which the checkpoint begins. -/
  descStart : UInt32
  mappingsPerBlock : Nat
  fanout : Nat
  /-- Whether the ring holds an older checkpoint too. -/
  older : Bool
  /-- Whether the first block holds the older superblock. -/
  stale : Bool
  ephemeral : List (ObjectId × UInt32)
  objects : List ObjectPlan
  volumes : List ObjectId
  /-- Mappings of versions that are not built. -/
  mappings : List (VersionKey × Mapping)
  snapshots : List (TransactionId × UInt32)

structure PlacedObject where
  oid : ObjectId
  xid : TransactionId
  address : BlockAddress
  deriving DecidableEq

structure ContainerLayout where
  blockSize : UInt32
  blockCount : UInt64
  xid : TransactionId
  objectMap : BlockAddress
  mappingTreeRoot : BlockAddress
  mappingTreeNodes : Nat
  snapshotTreeRoot : Option BlockAddress
  mapBlocks : List BlockAddress
  superblock : BlockAddress
  olderSuperblock : Option BlockAddress
  ephemeral : List PlacedObject
  objects : List PlacedObject
  deriving DecidableEq

structure ContainerImage where
  image : Image
  layout : ContainerLayout
  deriving DecidableEq

namespace ContainerDraft

def descBase : UInt64 := 1
def descBlocks : UInt32 := 16
def dataBase : UInt64 := 17
def dataBlocks : UInt32 := 16

/-- The block behind the checkpoint areas, which holds the object map. -/
def mapAddress : BlockAddress := dataBase + dataBlocks.toUInt64

/-- Blocks kept free for the trees of the object map. -/
def treeRoom : UInt64 := 1024

def treeBase : BlockAddress := mapAddress + 1

def objectBase : BlockAddress := treeBase + treeRoom

def blank (order : ByteOrder) : ContainerDraft where
  order := order
  blockSize := minimumBlockSize
  xid := 10
  descStart := 0
  mappingsPerBlock := 8
  fanout := 64
  older := false
  stale := false
  ephemeral := []
  objects := []
  volumes := []
  mappings := []
  snapshots := []

def startingAt (d : ContainerDraft) (slot : UInt32) : ContainerDraft :=
  { d with descStart := slot % descBlocks }

/-- A stale first block needs an older checkpoint. -/
def withStale (d : ContainerDraft) (stale : Bool) : ContainerDraft :=
  { d with stale := stale, older := d.older || stale }

def addEphemeral (d : ContainerDraft) (oid : ObjectId) (objectType : UInt32) : ContainerDraft :=
  { d with ephemeral := d.ephemeral ++ [(oid, objectType)] }

def addObject (d : ContainerDraft) (plan : ObjectPlan) : ContainerDraft :=
  { d with objects := d.objects ++ [plan] }

/-- A version of a volume; the first one gives the volume its slot. -/
def addVolume (d : ContainerDraft) (oid : ObjectId) (xid : TransactionId) : ContainerDraft :=
  { d with
    volumes := if d.volumes.contains oid then d.volumes else d.volumes ++ [oid]
    objects := d.objects ++ [⟨oid, xid, TypeWord.volumeSuperblock, 0⟩] }

def addMapping (d : ContainerDraft) (key : VersionKey) (value : Mapping) : ContainerDraft :=
  { d with mappings := d.mappings ++ [(key, value)] }

def addSnapshot (d : ContainerDraft) (xid : TransactionId) (flags : UInt32) : ContainerDraft :=
  { d with snapshots := d.snapshots ++ [(xid, flags)] }

def size (d : ContainerDraft) : Nat := d.blockSize.toNat

abbrev Pending := BlockAddress × Bytes

def ephemeralAddress (i : Nat) : BlockAddress := dataBase + i.toUInt64
def objectAddress (i : Nat) : BlockAddress := objectBase + i.toUInt64

def placedEphemeral (d : ContainerDraft) : List PlacedObject :=
  d.ephemeral.zipIdx.map fun ((oid, _), i) => ⟨oid, d.xid, ephemeralAddress i⟩

def placedObjects (d : ContainerDraft) : List PlacedObject :=
  d.objects.zipIdx.map fun (plan, i) => ⟨plan.oid, plan.xid, objectAddress i⟩

def ephemeralMappings (d : ContainerDraft) : List EphemeralMapping :=
  d.ephemeral.zipIdx.map fun ((oid, objectType), i) =>
    ObjectDraft.ephemeralMapping oid objectType d.blockSize (ephemeralAddress i)

def versions (d : ContainerDraft) : List (VersionKey × Mapping) :=
  d.mappings ++ d.objects.zipIdx.map fun (plan, i) =>
    (⟨plan.oid, plan.xid⟩, ⟨plan.mappingFlags, d.blockSize, objectAddress i⟩)

/-- An ephemeral object holds its own identifier, always in the little order. -/
def buildEphemeral (d : ContainerDraft) : Except BuildError (List Pending) :=
  d.ephemeral.zipIdx.mapM fun ((oid, objectType), i) => do
    let bytes ← ObjectDraft.raw d.order d.size
      (ObjectDraft.header oid d.xid (objectType ||| TypeWord.ephemeralFlag) 0)
      (wordBytes .little oid)
    return (ephemeralAddress i, bytes)

/-- A virtual object holds its own transaction in the little order, unless it is a volume. -/
def buildObject (d : ContainerDraft) (plan : ObjectPlan) : Except BuildError Bytes :=
  if plan.objectType = TypeWord.volumeSuperblock then
    let slot := if d.volumes.contains plan.oid then d.volumes.idxOf plan.oid else 0
    ObjectDraft.volume d.order d.size plan.oid plan.xid slot.toUInt32
  else
    ObjectDraft.raw d.order d.size (ObjectDraft.header plan.oid plan.xid plan.objectType 0)
      (wordBytes .little plan.xid)

def buildObjects (d : ContainerDraft) : Except BuildError (List Pending) :=
  d.objects.zipIdx.mapM fun (plan, i) => return (objectAddress i, ← d.buildObject plan)

def treeDraft (d : ContainerDraft) (sizes : Tree.EntrySizes) (subtype : UInt32)
    (first : BlockAddress) : TreeDraft :=
  { TreeDraft.blank d.order d.size (.fixed sizes) with
    subtype := subtype
    xid := d.xid
    fanout := d.fanout
    firstAddress := first }

def mappingSizes : Tree.EntrySizes := ⟨16, 16⟩

def snapshotSizes : Tree.EntrySizes := ⟨8, 16⟩

def endOf (first : BlockAddress) (t : BuiltTree) : BlockAddress :=
  first + t.nodes.length.toUInt64

def buildMappingTree (d : ContainerDraft) : Except BuildError BuiltTree := do
  let draft := d.treeDraft mappingSizes TypeWord.objectMap treeBase
  let t ← (draft.build (Entry.ofVersions d.order d.versions)).mapError .mappingTree
  if objectBase < endOf treeBase t then throw .mappingTreeRoom
  return t

def buildSnapshotTree (d : ContainerDraft) (first : BlockAddress) :
    Except BuildError (Option BuiltTree) := do
  if d.snapshots.isEmpty then return none
  let records := d.snapshots.map fun (xid, flags) => (xid, Snapshot.mk flags 0)
  let draft := d.treeDraft snapshotSizes TypeWord.snapshotTree first
  let t ← (draft.build (Entry.ofSnapshots d.order records)).mapError .snapshotTree
  if objectBase < endOf first t then throw .snapshotTreeRoom
  return some t

def latestSnapshot (d : ContainerDraft) : TransactionId :=
  d.snapshots.foldl (fun latest s => max latest s.1) 0

def pendingNodes (t : BuiltTree) : List Pending := t.nodes.map fun n => (n.address, n.bytes)

def blockCount (d : ContainerDraft) : UInt64 :=
  objectBase + (max d.objects.length 1).toUInt64

/-- The mappings by map block; a checkpoint without any still has one. -/
def mapGroups (d : ContainerDraft) : List (List EphemeralMapping) :=
  let mappings := d.ephemeralMappings
  if mappings.isEmpty then [[]] else chunks d.mappingsPerBlock mappings

/-- The superblock of the checkpoint, which follows `mapBlocks` map blocks in the ring. -/
def superblockFor (d : ContainerDraft) (mapBlocks : UInt32) : Superblock :=
  let dataLength := d.ephemeral.length.toUInt32
  let spaceManager := d.ephemeral.find? fun e => e.2 == TypeWord.spaceManager
  { ObjectDraft.blankSuperblock d.blockSize d.blockCount d.xid with
    descBlocksWord := descBlocks
    dataBlocksWord := dataBlocks
    descBase := descBase
    dataBase := dataBase
    descIndex := d.descStart
    descLength := mapBlocks + 1
    descNext := (d.descStart + mapBlocks + 1) % descBlocks
    dataIndex := 0
    dataLength := dataLength
    dataNext := dataLength % dataBlocks
    spaceManagerOid := (spaceManager.map Prod.fst).getD 0
    objectMap := mapAddress
    volumes := d.volumes }

/-- The superblock of the older checkpoint, in the two slots in front of the newer one. -/
def olderSuperblockFor (d : ContainerDraft) (s : Superblock) : Superblock :=
  { s with
    header := { s.header with xid := d.xid - 1 }
    nextXid := d.xid
    descIndex := (d.descStart + descBlocks - 2) % descBlocks
    descLength := 2
    descNext := d.descStart }

def ringAddress (s : Superblock) (i : UInt32) : Except BuildError BlockAddress :=
  match s.checkpointBlock i with
  | some address => .ok address
  | none => .error (.tooLarge "descriptor ring address")

def buildOlder (d : ContainerDraft) (s : Superblock) : Except BuildError (Pending × Pending) := do
  let older := d.olderSuperblockFor s
  let mapAt ← ringAddress older 0
  let superblockAt ← ringAddress older 1
  let mappings := d.ephemeralMappings
  if MapBlock.capacity d.size < mappings.length then throw .olderRoom
  let map ← ObjectDraft.mapBlock d.order d.size older.header.xid 0 mapAt true mappings
  let bytes ← ObjectDraft.superblock d.order d.size older
  return ((mapAt, map), (superblockAt, bytes))

def putAll (image : Image) : List Pending → Except BuildError Image
  | [] => .ok image
  | (address, bytes) :: rest =>
    match image.put address bytes with
    | (.ok (), image) => putAll image rest
    | (.error e, _) => .error e

def build (d : ContainerDraft) : Except BuildError ContainerImage := do
  if d.mappingsPerBlock = 0 then throw .mappingsPerBlock
  if d.xid ≤ 1 then throw .firstTransaction
  if dataBlocks.toNat < d.ephemeral.length then throw (.ephemeralRoom dataBlocks.toNat)
  let ephemeral ← d.buildEphemeral
  let objects ← d.buildObjects
  let tree ← d.buildMappingTree
  let snapshotTree ← d.buildSnapshotTree (endOf treeBase tree)
  let snapshotRoot := snapshotTree.map (·.root.address)
  let descriptor ← ObjectDraft.mapDescriptor d.order d.size mapAddress d.xid tree.root.address
    (snapshotRoot.map fun root => ⟨root, d.snapshots.length.toUInt32, d.latestSnapshot⟩)
  let groups := d.mapGroups
  if descBlocks.toNat < groups.length + 1 + (if d.older then 2 else 0) then throw .ringRoom
  let mapBlocks := groups.length.toUInt32
  let s := d.superblockFor mapBlocks
  let mapAddresses ← (List.range groups.length).mapM fun i => ringAddress s i.toUInt32
  let superblockAt ← ringAddress s mapBlocks
  let chain ← ObjectDraft.mapChain d.order d.size d.xid mapAddresses groups true
  let superblock ← ObjectDraft.superblock d.order d.size s
  let older ← if d.older then (d.buildOlder s).map some else pure none
  let olderBlocks := match older with
    | some (map, superblock) => [map, superblock]
    | none => []
  let first := match older with
    | some (_, (_, stale)) => if d.stale then stale else superblock
    | none => superblock
  let image ← putAll (Image.blank d.blockSize d.blockCount)
    (ephemeral ++ objects ++ pendingNodes tree ++ (snapshotTree.map pendingNodes).getD [] ++
      [(mapAddress, descriptor)] ++ mapAddresses.zip chain ++ [(superblockAt, superblock)] ++
      olderBlocks ++ [(0, first)])
  return {
    image := image
    layout := {
      blockSize := d.blockSize
      blockCount := d.blockCount
      xid := d.xid
      objectMap := mapAddress
      mappingTreeRoot := tree.root.address
      mappingTreeNodes := tree.nodes.length
      snapshotTreeRoot := snapshotRoot
      mapBlocks := mapAddresses
      superblock := superblockAt
      olderSuperblock := older.map fun blocks => blocks.2.1
      ephemeral := d.placedEphemeral
      objects := d.placedObjects } }

end ContainerDraft

end ObjectStore
