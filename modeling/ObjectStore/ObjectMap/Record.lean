import ObjectStore.Bytes.Codec
import ObjectStore.Object.Reference
import ObjectStore.Tree.KeyOrder

/-
The records of an object map: where each version of a virtual object lies, and which versions
are kept as snapshots.
-/
namespace ObjectStore

/-- A version of a virtual object, ordered by object and then by transaction. -/
structure VersionKey where
  oid : ObjectId
  xid : TransactionId
  deriving DecidableEq, Repr

namespace VersionKey

def codec : Codec VersionKey :=
  (Codec.word64.seq Codec.word64).map (fun (oid, xid) => ⟨oid, xid⟩) (fun k => (k.oid, k.xid))

def parse (e : ByteOrder) (b : Bytes) : Except DecodeError VersionKey := codec.read e b 0
def encode (e : ByteOrder) (k : VersionKey) : Bytes := codec.encode e k

def compare (a b : VersionKey) : Ordering :=
  (Ord.compare a.oid b.oid).then (Ord.compare a.xid b.xid)

def describe (k : VersionKey) : String :=
  s!"OmapKey \x7b oid: ObjectId({k.oid}), xid: Xid({k.xid}) \x7d"

/-- Keys of the mapping tree; the versions of one object share their identity. -/
def order : Tree.KeyOrder VersionKey where
  compare e stored target := (parse e stored).map (compare · target)
  sameIdentity e stored target := (parse e stored).map (·.oid == target.oid)
  describe := describe

end VersionKey

structure Mapping where
  flags : UInt32
  size : UInt32
  address : BlockAddress
  deriving DecidableEq, Repr

namespace Mapping

def codec : Codec Mapping :=
  (Codec.word32.seq <| Codec.word32.seq Codec.word64).map
    (fun (flags, size, address) => ⟨flags, size, address⟩)
    (fun v => (v.flags, v.size, v.address))

def parse (e : ByteOrder) (b : Bytes) : Except DecodeError Mapping := codec.read e b 0
def encode (e : ByteOrder) (v : Mapping) : Bytes := codec.encode e v

def isDeleted (v : Mapping) : Bool := hasFlag v.flags 0x01
def isSaved (v : Mapping) : Bool := hasFlag v.flags 0x02
def isEncrypted (v : Mapping) : Bool := hasFlag v.flags 0x04
def hasNoHeader (v : Mapping) : Bool := hasFlag v.flags 0x08
def hasCryptoGeneration (v : Mapping) : Bool := hasFlag v.flags 0x10

end Mapping

/-- What is kept of a snapshot, under its transaction. -/
structure Snapshot where
  flags : UInt32
  oid : ObjectId
  deriving DecidableEq, Repr

namespace Snapshot

def codec : Codec Snapshot :=
  (Codec.word32.seq <| (Codec.pad 4).seq Codec.word64).map
    (fun (flags, _, oid) => ⟨flags, oid⟩) (fun s => (s.flags, (), s.oid))

def parse (e : ByteOrder) (b : Bytes) : Except DecodeError Snapshot := codec.read e b 0
def encode (e : ByteOrder) (s : Snapshot) : Bytes := codec.encode e s

def isDeleted (s : Snapshot) : Bool := hasFlag s.flags 0x01
def isReverted (s : Snapshot) : Bool := hasFlag s.flags 0x02

end Snapshot

end ObjectStore
