import ObjectStore.Cache
import ObjectStore.Checkpoint.MapChain
import ObjectStore.ObjectMap.Map
import ObjectStore.Source.Trace

/-
From references to objects. A reference is first placed on blocks, through the object map or
the checkpoint if it is not physical; what is read there is believed only when its checksum
holds and its header names what was asked for. Tree nodes that passed are remembered by block,
but each new reference to one is still compared with its header.
-/
namespace ObjectStore

structure ResolverOptions where
  /-- The byte order, where it is not to be detected. -/
  order : Option ByteOrder
  cacheCapacity : Nat
  cacheShards : Nat
  maxTreeDepth : UInt16
  maxMapBlocks : Option UInt32
  deriving DecidableEq, Repr

namespace ResolverOptions

def standard : ResolverOptions := ⟨none, 1024, 16, Tree.standardDepth, none⟩
def uncached : ResolverOptions := { standard with cacheCapacity := 0 }

end ResolverOptions

/-- What a reader keeps from call to call: the nodes it remembers and, newest first, the calls
it has made on its source. -/
structure Memory where
  cache : Cache Tree.Node
  accesses : List Access

namespace Memory

def fresh (options : ResolverOptions) : Memory :=
  ⟨.ofCapacity options.cacheCapacity options.cacheShards, []⟩

def note (access : Access) (memory : Memory) : Memory :=
  { memory with accesses := access :: memory.accesses }

end Memory

/-- Reading with a memory, which an error leaves as it was then. -/
abbrev Reading := Session Memory

def BlockSource.remembered (s : BlockSource (Except StoreError)) : BlockSource Reading :=
  s.traced fun access => Session.change (Memory.note access)

/-- An object as it was asked for and as it was found. -/
structure ResolvedObject where
  reference : Reference
  address : BlockAddress
  header : ObjectHeader
  bytes : Bytes
  deriving DecidableEq

def ResolvedObject.payload (o : ResolvedObject) : Bytes := o.bytes.drop ObjectHeader.size

structure Placement where
  address : BlockAddress
  blocks : UInt32
  deriving DecidableEq, Repr

structure Resolver where
  source : BlockSource Reading
  order : ByteOrder
  options : ResolverOptions
  objectMap : Option ObjectMap
  checkpoint : Option MapChain

/-- How a header fails to be that of the object referred to, if it does. A virtual object may
be older than asked for, not newer. -/
def identityFault? (reference : Reference) (header : ObjectHeader) : Option String :=
  match reference with
  | .physical expected =>
      if header.oid ≠ expected then
        some s!"header oid {idText header.oid} at physical block {expected}"
      else none
  | .virtual oid xid =>
      if header.oid ≠ oid then some s!"header oid {idText header.oid} for {reference.text}"
      else if xid < header.xid then
        some s!"header xid {header.xid} is newer than {reference.text}"
      else if header.storage? ≠ some .virtual then
        some s!"{reference.text} is not stored as a virtual object"
      else none
  | .ephemeral oid =>
      if header.oid ≠ oid then some s!"header oid {idText header.oid} for {reference.text}"
      else if header.storage? ≠ some .ephemeral then
        some s!"{reference.text} is not stored as an ephemeral object"
      else none

namespace Resolver

def ofSource (source : BlockSource Reading) (order : ByteOrder) (options : ResolverOptions) :
    Resolver := ⟨source, order, options, none, none⟩

def withObjectMap (r : Resolver) (map : ObjectMap) : Resolver :=
  { r with objectMap := some (map.withMaxDepth r.options.maxTreeDepth) }

def withCheckpoint (r : Resolver) (chain : MapChain) : Resolver :=
  { r with checkpoint := some chain }

def checkIdentity (reference : Reference) (address : BlockAddress) (header : ObjectHeader) :
    Reading Unit :=
  match identityFault? reference header with
  | none => pure ()
  | some detail => throw (.corrupt address detail)

def rejectReserved (oid : ObjectId) : Reading Unit :=
  if isReserved oid then throw (.reservedId oid) else pure ()

/-- The blocks of an object of `size` bytes at an address, at least one. -/
def placed (r : Resolver) (address : BlockAddress) (size : UInt32) : Reading Placement := do
  let blocks := (BlockSize.mk (max r.source.blockSize 1)).blocksFor size.toUInt64
  if blocks = 0 then throw (.corrupt address "mapped object has zero size")
  return ⟨address, blocks.toUInt32⟩

/-- How a version of a virtual object is found; without a map, none is. -/
abbrev Lookup := ObjectId → TransactionId → Reading Mapping

def noMap : Lookup := fun _ _ => throw (.unsupported "virtual object without an object map")

def place (r : Resolver) (lookup : Lookup) (reference : Reference) : Reading Placement := do
  match reference with
  | .physical address =>
      if address = 0 then throw (.reservedId 0)
      return ⟨address, 1⟩
  | .virtual oid xid =>
      let mapping ← lookup oid xid
      if mapping.isDeleted then
        throw (.keyNotFound s!"{reference.text} deleted at or before xid {xid}")
      if mapping.isEncrypted then throw (.unsupported s!"{reference.text} is encrypted")
      if mapping.hasNoHeader then
        throw (.unsupported s!"{reference.text} is stored without an object header")
      r.placed mapping.address mapping.size
  | .ephemeral oid =>
      rejectReserved oid
      match r.checkpoint with
      | none => throw (.unsupported "ephemeral object without a checkpoint map")
      | some chain =>
        let mapping ← chain.resolve r.source oid
        r.placed mapping.address mapping.size

def readPlaced (r : Resolver) (p : Placement) : Reading Bytes :=
  if p.blocks = 1 then r.source.readBlock p.address else r.source.readRange p.address p.blocks

def keep (address : BlockAddress) (node : Tree.Node) : Reading Unit :=
  Session.change fun memory => { memory with cache := memory.cache.insert address node }

def cached (address : BlockAddress) : Reading (Option Tree.Node) := do
  let memory ← get
  let (found, cache) := memory.cache.get address
  set { memory with cache := cache }
  return found

/-- Reads and checks a node that is not remembered. -/
def loadNode (r : Resolver) (reference : Reference) (p : Placement) : Reading Tree.Node := do
  let bytes ← r.readPlaced p
  Object.verify r.order bytes p.address "B-tree node"
  let node ← decodedAt p.address (Tree.Node.parse r.order bytes)
  checkIdentity reference p.address node.object
  let code := node.object.typeCode
  if code ≠ TypeWord.tree ∧ code ≠ TypeWord.treeNode then
    throw (.corrupt p.address
      s!"{reference.text} is a {node.object.typeName} object, not a B-tree node")
  return node

def readNodeWith (r : Resolver) (lookup : Lookup) (reference : Reference) :
    Reading Tree.Loaded := do
  let p ← r.place lookup reference
  match ← cached p.address with
  | some node =>
      checkIdentity reference p.address node.object
      return ⟨p.address, node⟩
  | none =>
      let node ← r.loadNode reference p
      keep p.address node
      return ⟨p.address, node⟩

/-- Where a version of a virtual object lies. The nodes of the map's own tree are physical and
are read with no map bound. -/
def lookupMapping (r : Resolver) : Lookup := fun oid xid => do
  rejectReserved oid
  match r.objectMap with
  | none => noMap oid xid
  | some map => map.resolve (r.readNodeWith noMap) oid xid

def readNode (r : Resolver) (reference : Reference) : Reading Tree.Loaded :=
  r.readNodeWith r.lookupMapping reference

def resolve (r : Resolver) (reference : Reference) : Reading ResolvedObject := do
  let p ← r.place r.lookupMapping reference
  let bytes ← r.readPlaced p
  Object.verify r.order bytes p.address reference.text
  let header ← decodedAt p.address (ObjectHeader.parse r.order bytes)
  checkIdentity reference p.address header
  return ⟨reference, p.address, header, bytes⟩

def navigator (r : Resolver) : Tree.Navigator Reading := ⟨r.readNode, r.options.maxTreeDepth⟩

end Resolver

end ObjectStore
