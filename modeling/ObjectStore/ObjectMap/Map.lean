import ObjectStore.Object.Checksum
import ObjectStore.ObjectMap.Descriptor
import ObjectStore.ObjectMap.Record
import ObjectStore.Source.BlockSource
import ObjectStore.Tree.Navigator

/-
Object maps: where the versions of virtual objects lie. Both trees of a map are physical, so
reading one never needs a map.
-/
namespace ObjectStore

structure ObjectMap where
  address : BlockAddress
  order : ByteOrder
  descriptor : MapDescriptor
  maxDepth : UInt16
  deriving DecidableEq

namespace ObjectMap

variable {m : Type → Type} [Monad m] [MonadExceptOf StoreError m]

/-- The map that a descriptor stands for, when it is the one at its own address. -/
def ofDescriptor (address : BlockAddress) (order : ByteOrder) (d : MapDescriptor) :
    Except StoreError ObjectMap := do
  decodedAt address (d.header.expectCode TypeWord.objectMap)
  if d.header.oid ≠ address then
    throw (.corrupt address s!"object map header names oid {idText d.header.oid}")
  if d.treeStorage? ≠ some .physical then
    throw (.unsupported s!"object map tree with type {hexText d.treeType.toNat}")
  return ⟨address, order, d, Tree.standardDepth⟩

/-- Reads the descriptor at an address straight from the source. -/
def openAt (source : BlockSource m) (address : BlockAddress) (order : ByteOrder) :
    m ObjectMap := do
  if address = 0 then throw (.reservedId 0)
  let block ← source.readBlock address
  Object.verify order block address "object map"
  let d ← decodedAt address (MapDescriptor.parse order block)
  ofExcept (ofDescriptor address order d)

def withMaxDepth (map : ObjectMap) (maxDepth : UInt16) : ObjectMap :=
  { map with maxDepth := maxDepth }

def treeRoot (map : ObjectMap) : Reference := .physical map.descriptor.treeOid
def snapshotTreeRoot (map : ObjectMap) : Reference := .physical map.descriptor.snapshotTreeOid

def mostRecentSnapshot (map : ObjectMap) : Option TransactionId :=
  let d := map.descriptor
  if 0 < d.snapshotCount ∧ d.mostRecentSnapshot ≠ 0 then some d.mostRecentSnapshot else none

def navigator (map : ObjectMap) (nodes : Reference → m Tree.Loaded) : Tree.Navigator m :=
  ⟨nodes, map.maxDepth⟩

/-- The newest version of an object that is not newer than `xid`. -/
def resolve (map : ObjectMap) (nodes : Reference → m Tree.Loaded) (oid : ObjectId)
    (xid : TransactionId) : m Mapping := do
  let found ← (map.navigator nodes).find VersionKey.order map.treeRoot ⟨oid, xid⟩ .versioned
  let _ ← decodedAt found.address (VersionKey.parse map.order found.key)
  decodedAt found.address (Mapping.parse map.order found.value)

def resolveLatest (map : ObjectMap) (nodes : Reference → m Tree.Loaded) (oid : ObjectId) :
    m Mapping := map.resolve nodes oid latestTransaction

/-- A record of the snapshot tree. What it fails to hold is charged to the root of the tree. -/
def snapshotOf (map : ObjectMap) (key value : Bytes) : m (TransactionId × Snapshot) := do
  let root := map.snapshotTreeRoot.oid
  let xid ← decodedAt root (map.order.read64 key 0)
  let snapshot ← decodedAt root (Snapshot.parse map.order value)
  return (xid, snapshot)

/-- The snapshots of a map by rising transaction, none without a snapshot tree. -/
def snapshots (map : ObjectMap) (nodes : Reference → m Tree.Loaded) :
    m (List (TransactionId × Snapshot)) := do
  if !map.descriptor.hasSnapshotTree then return []
  if map.descriptor.snapshotTreeStorage? ≠ some .physical then
    throw (.unsupported
      s!"object map snapshot tree with type {hexText map.descriptor.snapshotTreeType.toNat}")
  let collector : Tree.Navigator (StateT (List (TransactionId × Snapshot)) m) :=
    map.navigator fun reference => liftM (nodes reference)
  let visit (key value : Bytes) : StateT (List (TransactionId × Snapshot)) m Unit := do
    let record ← map.snapshotOf key value
    modify (record :: ·)
  let (_, newestFirst) ← (collector.walk map.snapshotTreeRoot visit).run []
  return newestFirst.reverse

end ObjectMap

end ObjectStore
