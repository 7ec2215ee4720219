import ObjectStore.Resolver

/-
Containers. Opening one checks its superblock, binds the checkpoint that the superblock closes
and opens the container's object map if it has one.
-/
namespace ObjectStore

structure Container where
  address : BlockAddress
  superblock : Superblock
  resolver : Resolver

structure Candidate where
  address : BlockAddress
  superblock : Superblock
  deriving DecidableEq

def Candidate.xid (c : Candidate) : TransactionId := c.superblock.header.xid

/-- The magic number of a volume superblock: `APSB` when stored in the little order. -/
def volumeMagic : UInt32 := 0x42535041

namespace Container

/-- The byte order asked for, or else the one in which the superblock is written. -/
def orderOf (options : ResolverOptions) (block : Bytes) (address : BlockAddress) :
    Except StoreError ByteOrder :=
  match options.order with
  | some order => .ok order
  | none => decodedAt address (Superblock.detectOrder block)

/-- Binds the object map at an address, read as any other physical object. -/
def bindObjectMap (r : Resolver) (address : BlockAddress) : Reading Resolver := do
  let object ← r.resolve (.physical address)
  let d ← decodedAt address (MapDescriptor.parse r.order object.bytes)
  return r.withObjectMap (← ofExcept (ObjectMap.ofDescriptor address r.order d))

/-- Opens the container by the superblock at an address. The memory should be a fresh one. -/
def openAt (source : BlockSource Reading) (address : BlockAddress) (options : ResolverOptions) :
    Reading Container := do
  let block ← source.readBlock address
  let order ← ofExcept (orderOf options block address)
  Object.verify order block address "container superblock"
  let s ← decodedAt address (Superblock.parse order block)
  if s.blockSize ≠ source.blockSize then
    throw (.format (s!"superblock block size {s.blockSize}" ++
      s!" does not match source block size {source.blockSize}"))
  let chain ← ofExcept (MapChain.ofSuperblock s order options.maxMapBlocks)
  let r := (Resolver.ofSource source order options).withCheckpoint chain
  let r ← if s.objectMap = 0 then pure r else bindObjectMap r s.objectMap
  return ⟨address, s, r⟩

/-- Opens the container on a device, whose first block tells the block size. -/
def openDevice (d : Device) (options : ResolverOptions) : Reading Container := do
  let region ← ofExcept d.superblockRegion
  let order ← ofExcept (orderOf options region 0)
  let s ← decodedAt 0 (Superblock.parse order region)
  let size ← decodedAt 0 (BlockSize.ofWord s.blockSize)
  let source ← ofExcept (BlockSource.ofDevice d size)
  openAt source.remembered 0 options

def xid (c : Container) : TransactionId := c.superblock.header.xid
def order (c : Container) : ByteOrder := c.resolver.order

/-- The superblock in a slot of the descriptor ring, if a sound one of this container is there.
Only a header that says so is worth reading the block for. -/
def candidateAt (c : Container) (address : BlockAddress) : Reading (Option Candidate) := do
  let source := c.resolver.source
  let front ← source.readBytes address 0 ObjectHeader.size.toUInt32
  match ObjectHeader.parse c.order front with
  | .error _ => return none
  | .ok header =>
    if header.typeCode ≠ TypeWord.containerSuperblock then return none
    let block ← source.readBlock address
    if !Object.verifies c.order block then return none
    match Superblock.parse c.order block with
    | .error _ => return none
    | .ok s =>
      if s.blockSize ≠ c.superblock.blockSize then return none
      return some ⟨address, s⟩

/-- The candidate of the greater transaction, the first of two equal ones. -/
def newer (best : Option Candidate) (next : Candidate) : Candidate :=
  match best with
  | none => next
  | some b => if b.xid < next.xid then next else b

/-- The best of `best` and the candidates in the slots from `slot` on. -/
def latestFrom (c : Container) (slot : UInt32) (best : Option Candidate) :
    Nat → Reading (Option Candidate)
  | 0 => return best
  | left + 1 => do
      match c.superblock.descBlock slot with
      | none => c.latestFrom (slot + 1) best left
      | some address =>
        match ← c.candidateAt address with
        | none => c.latestFrom (slot + 1) best left
        | some next => c.latestFrom (slot + 1) (some (newer best next)) left

def latestCheckpoint (c : Container) : Reading Candidate := do
  match ← c.latestFrom 0 none c.superblock.descBlocks.toNat with
  | some best => return best
  | none =>
    throw (.corrupt c.superblock.descBase
      "no valid superblock in the checkpoint descriptor area")

def checkpointMappings (c : Container) : Reading (List EphemeralMapping) :=
  match c.resolver.checkpoint with
  | some chain => chain.mappings c.resolver.source
  | none => return []

def volume (c : Container) (slot : Nat) : Reading ResolvedObject := do
  match c.superblock.volumeOid slot with
  | none => throw (.keyNotFound s!"volume slot {slot} is empty")
  | some oid =>
    let object ← c.resolver.resolve (.virtual oid c.xid)
    if object.header.typeCode ≠ TypeWord.volumeSuperblock then
      throw (.corrupt object.address
        s!"volume {idText oid} is a {object.header.typeName} object")
    let magic ← decodedAt object.address (c.order.read32 object.bytes ObjectHeader.size)
    if magic ≠ volumeMagic then
      throw (.format (s!"volume {idText oid} has magic {hexText magic.toNat}," ++
        s!" expected {hexText volumeMagic.toNat}"))
    return object

/-- The volumes in use by slot, or the error of the first that cannot be read. -/
def volumes (c : Container) : Reading (List ResolvedObject) :=
  c.superblock.usedSlots.mapM c.volume

end Container

end ObjectStore
