import ObjectStore.Draft.BuildError
import ObjectStore.ObjectMap.Record
import ObjectStore.Tree.Layout

/-
Entries of trees to be built, in the stored form of their keys and values, and how the records
of an object map become entries. Records are put into the order of their keys; records with
equal keys stay as they were given.
-/
namespace ObjectStore

abbrev Entry := Bytes × Bytes

def wordBytes (e : ByteOrder) (v : UInt64) : Bytes := Bytes.ofList (e.bytesOf .eight v)

namespace Entry

def keyBytes (entries : List Entry) : Nat := entries.foldl (fun n entry => n + entry.1.size) 0

def valueBytes (entries : List Entry) : Nat := entries.foldl (fun n entry => n + entry.2.size) 0

def longestKey (entries : List Entry) : Nat :=
  entries.foldl (fun longest entry => max longest entry.1.size) 0

def longestValue (entries : List Entry) : Nat :=
  entries.foldl (fun longest entry => max longest entry.2.size) 0

def ofWords (e : ByteOrder) (pairs : List (UInt64 × UInt64)) : List Entry :=
  (pairs.mergeSort fun a b => a.1 ≤ b.1).map fun (k, v) => (wordBytes e k, wordBytes e v)

def ofVersions (e : ByteOrder) (versions : List (VersionKey × Mapping)) : List Entry :=
  (versions.mergeSort fun a b => VersionKey.compare a.1 b.1 != .gt).map fun (k, v) =>
    (k.encode e, v.encode e)

def ofSnapshots (e : ByteOrder) (snapshots : List (TransactionId × Snapshot)) : List Entry :=
  (snapshots.mergeSort fun a b => a.1 ≤ b.1).map fun (xid, s) => (wordBytes e xid, s.encode e)

end Entry

/-- Whether slots hold lengths, and if not, which lengths the whole tree has. -/
inductive EntryLayout where
  | fixed (sizes : Tree.EntrySizes)
  | variable
  deriving DecidableEq, Repr

namespace EntryLayout

def isFixed : EntryLayout → Bool
  | .fixed _ => true
  | .variable => false

def slotSize (layout : EntryLayout) : Nat := Tree.Slot.sizeOf layout.isFixed

/-- The sizes that a footer states; zero where they vary. -/
def stated : EntryLayout → Tree.EntrySizes
  | .fixed sizes => sizes
  | .variable => ⟨0, 0⟩

end EntryLayout

end ObjectStore
