import ObjectStore.Object.Header

/-
The object that describes an object map: the roots of its mapping tree and of its snapshot
tree, and the state of its snapshots.
-/
namespace ObjectStore

structure MapDescriptor where
  header : ObjectHeader
  flags : UInt32
  snapshotCount : UInt32
  treeType : UInt32
  snapshotTreeType : UInt32
  treeOid : ObjectId
  snapshotTreeOid : ObjectId
  mostRecentSnapshot : TransactionId
  pendingRevertMin : TransactionId
  pendingRevertMax : TransactionId
  deriving DecidableEq, Repr

namespace MapDescriptor

def codec : Codec MapDescriptor :=
  (ObjectHeader.codec.seq <| Codec.word32.seq <| Codec.word32.seq <| Codec.word32.seq <|
      Codec.word32.seq <| Codec.word64.seq <| Codec.word64.seq <| Codec.word64.seq <|
      Codec.word64.seq Codec.word64).map
    (fun (header, flags, count, treeType, snapshotTreeType, tree, snapshotTree, recent, low,
        high) =>
      ⟨header, flags, count, treeType, snapshotTreeType, tree, snapshotTree, recent, low, high⟩)
    (fun d => (d.header, d.flags, d.snapshotCount, d.treeType, d.snapshotTreeType, d.treeOid,
      d.snapshotTreeOid, d.mostRecentSnapshot, d.pendingRevertMin, d.pendingRevertMax))

def parse (e : ByteOrder) (b : Bytes) : Except DecodeError MapDescriptor := do
  let d ← codec.decode e b
  d.header.expectCode TypeWord.objectMap
  return d

def encode (e : ByteOrder) (d : MapDescriptor) : Encoder Unit := codec.write e 0 d

def isManuallyManaged (d : MapDescriptor) : Bool := hasFlag d.flags 0x01
def treeStorage? (d : MapDescriptor) : Option StorageClass := TypeWord.storage? d.treeType
def snapshotTreeStorage? (d : MapDescriptor) : Option StorageClass :=
  TypeWord.storage? d.snapshotTreeType

def hasSnapshotTree (d : MapDescriptor) : Bool := d.snapshotTreeOid != 0

def hasPendingRevert (d : MapDescriptor) : Bool :=
  d.pendingRevertMin != 0 || d.pendingRevertMax != 0

end MapDescriptor

end ObjectStore
