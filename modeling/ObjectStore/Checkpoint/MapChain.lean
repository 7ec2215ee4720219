import ObjectStore.Checkpoint.MapBlock
import ObjectStore.Object.Checksum
import ObjectStore.Source.BlockSource
import ObjectStore.Superblock

/-
The chain of map blocks of one checkpoint. It starts at a slot of the descriptor ring, goes on
to the next slot and back to the first behind the last, and ends with a block flagged as last.
-/
namespace ObjectStore

structure MapChain where
  order : ByteOrder
  ringBase : BlockAddress
  ringBlocks : UInt32
  firstSlot : UInt32
  /-- Blocks that a scan may read. -/
  maxBlocks : UInt32
  deriving DecidableEq, Repr

namespace MapChain

variable {m : Type → Type} [Monad m] [MonadExceptOf StoreError m]

/-- The chain of the checkpoint that a superblock closes. It never covers the ring twice. -/
def ofSuperblock (s : Superblock) (order : ByteOrder) (maxBlocks : Option UInt32) :
    Except StoreError MapChain :=
  if !s.isDescContiguous then .error (.unsupported "non-contiguous checkpoint descriptor area")
  else if s.descBlocks = 0 then
    .error (.corrupt s.header.oid "checkpoint descriptor area has no blocks")
  else
    .ok ⟨order, s.descBase, s.descBlocks, s.descIndex,
      min (maxBlocks.getD s.descLength) s.descBlocks⟩

def blockAddress (c : MapChain) (i : UInt32) : Option BlockAddress :=
  checkedAdd c.ringBase ((c.firstSlot.toUInt64 + i.toUInt64) % c.ringBlocks.toUInt64)

def readBlock (c : MapChain) (source : BlockSource m) (i : UInt32) : m MapBlock := do
  match c.blockAddress i with
  | none => throw (.outOfRange c.ringBase source.blockCount)
  | some address =>
    let block ← source.readBlock address
    Object.verify c.order block address "checkpoint map"
    decodedAt address (MapBlock.parse c.order block)

/-- No block within reach was flagged as the last. -/
def unterminated (c : MapChain) : StoreError :=
  .corrupt ((c.blockAddress 0).getD c.ringBase)
    s!"checkpoint map chain has no LAST block within {c.maxBlocks} blocks"

def absent (oid : ObjectId) : StoreError :=
  .keyNotFound s!"ephemeral object {idText oid} not in checkpoint map"

/-- Looks for an object in the blocks from `i` on, of which `left` may be read. -/
def resolveFrom (c : MapChain) (source : BlockSource m) (oid : ObjectId) (i : UInt32) :
    Nat → m EphemeralMapping
  | 0 => throw c.unterminated
  | left + 1 => do
      let block ← c.readBlock source i
      match block.find oid with
      | some mapping => return mapping
      | none =>
        if block.isLast then throw (absent oid)
        else c.resolveFrom source oid (i + 1) left

/-- The first mapping of an object. The scan stops at the block that holds it. -/
def resolve (c : MapChain) (source : BlockSource m) (oid : ObjectId) : m EphemeralMapping :=
  c.resolveFrom source oid 0 c.maxBlocks.toNat

/-- The mappings of the blocks from `i` on, of which `left` may be read. -/
def mappingsFrom (c : MapChain) (source : BlockSource m) (i : UInt32) :
    Nat → m (List EphemeralMapping)
  | 0 => throw c.unterminated
  | left + 1 => do
      let block ← c.readBlock source i
      if block.isLast then return block.mappings
      else return block.mappings ++ (← c.mappingsFrom source (i + 1) left)

/-- All mappings of the checkpoint, in the order of the chain. -/
def mappings (c : MapChain) (source : BlockSource m) : m (List EphemeralMapping) :=
  c.mappingsFrom source 0 c.maxBlocks.toNat

end MapChain

end ObjectStore
