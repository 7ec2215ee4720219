import ObjectStore.Object.Checksum
import ObjectStore.Tree.Layout

/-
Decoded nodes. A node owns its block; the areas of the block that its header declares are
checked once, when it is parsed, and its entries are checked as they are read.
-/
namespace ObjectStore.Tree

structure Node where
  order : ByteOrder
  bytes : Bytes
  header : NodeHeader
  footer : Option Footer
  /-- Leaves are exactly the nodes of level zero. -/
  leaf_iff_level : header.isLeaf = true ↔ header.level = 0
  deriving DecidableEq

namespace Node

/-- Where the value area ends in a block of `size` bytes: a root stops short of its footer. -/
def valueEndIn (header : NodeHeader) (size : Nat) : Nat :=
  if header.isRoot then size - Footer.size else size

def tableStartIn (header : NodeHeader) : Nat := NodeHeader.size + header.tableSpace.off.toNat
def keyStartIn (header : NodeHeader) : Nat := tableStartIn header + header.tableSpace.len.toNat
def freeStartIn (header : NodeHeader) : Nat := keyStartIn header + header.freeSpace.off.toNat
def freeEndIn (header : NodeHeader) : Nat := freeStartIn header + header.freeSpace.len.toNat

/-- The areas declared by the header have to lie in this order before the end of the values. -/
def checkAreas (header : NodeHeader) (valueEnd : Nat) : Except DecodeError Unit := do
  let table := header.tableSpace.len.toNat
  if valueEnd < keyStartIn header then
    throw (.insufficientData table (tableStartIn header) (valueEnd - tableStartIn header))
  if table < header.keyCount.toNat * Slot.sizeOf header.isFixed then
    throw (.invalidField "btn_table_space" "too small for key count")
  if valueEnd < freeEndIn header then
    throw (.insufficientData header.freeSpace.len.toNat (freeStartIn header)
      (valueEnd - freeStartIn header))

/-- The footer of a root, which needs room for both the headers and the footer. -/
def footerOf (e : ByteOrder) (header : NodeHeader) (bytes : Bytes) :
    Except DecodeError (Option Footer) := do
  if header.isRoot then
    let footer ← Footer.ofRoot e bytes
    Bytes.require bytes (NodeHeader.size + Footer.size)
    return some footer
  else return none

def parse (e : ByteOrder) (bytes : Bytes) : Except DecodeError Node := do
  let header ← NodeHeader.parse e bytes
  if h : header.isLeaf = true ↔ header.level = 0 then
    let footer ← footerOf e header bytes
    checkAreas header (valueEndIn header bytes.size)
    return ⟨e, bytes, header, footer, h⟩
  else throw (.invalidField "btn_level" "leaf flag disagrees with level")

def object (n : Node) : ObjectHeader := n.header.object
def level (n : Node) : UInt16 := n.header.level
def keyCount (n : Node) : Nat := n.header.keyCount.toNat
def isRoot (n : Node) : Bool := n.header.isRoot
def isLeaf (n : Node) : Bool := n.header.isLeaf
def isFixed (n : Node) : Bool := n.header.isFixed

/-- The entry sizes that this node can supply; only a root carries them. -/
def entrySizes (n : Node) : Option EntrySizes := n.footer.map EntrySizes.ofFooter

def valueEnd (n : Node) : Nat := valueEndIn n.header n.bytes.size
def tableStart (n : Node) : Nat := tableStartIn n.header
def keyStart (n : Node) : Nat := keyStartIn n.header
def freeStart (n : Node) : Nat := freeStartIn n.header
def freeEnd (n : Node) : Nat := freeEndIn n.header

def table (n : Node) : Bytes := n.bytes.extract n.tableStart n.keyStart

/-- Keys in use, up to the free space. -/
def keyArea (n : Node) : Bytes := n.bytes.extract n.keyStart n.freeStart

/-- Values in use, from the free space on. -/
def valueArea (n : Node) : Bytes := n.bytes.extract n.freeEnd n.valueEnd

def slot (n : Node) (index : Nat) : Except DecodeError Slot :=
  if index < n.keyCount then
    (Slot.codec n.isFixed).read n.order n.table (index * Slot.sizeOf n.isFixed)
  else .error (.invalidField "toc_index" "index beyond key count")

/-- The key of an entry. `sizes` is needed in a node with fixed slots and ignored otherwise. -/
def key (n : Node) (sizes : Option EntrySizes) (index : Nat) : Except DecodeError Bytes := do
  let (off, len) ← (← n.slot index).keyRange sizes
  let start := n.keyStart + off
  if n.bytes.size < start + len then
    throw (.insufficientData len start (n.bytes.size - start))
  if n.valueEnd < start + len then
    throw (.invalidField "k.off" "key extends past key area")
  return n.bytes.extract start (start + len)

/-- The value of an entry, empty for one that has none. -/
def value (n : Node) (sizes : Option EntrySizes) (index : Nat) : Except DecodeError Bytes := do
  let (off, len) ← (← n.slot index).valueRange sizes n.isLeaf
  if off = Slot.noValue then return ByteArray.empty
  if n.valueEnd < off.toNat then
    throw (.invalidField "v.off" "value offset before node start")
  let start := n.valueEnd - off.toNat
  if n.bytes.size < start + len then
    throw (.insufficientData len start (n.bytes.size - start))
  if start < n.keyStart ∨ n.valueEnd < start + len then
    throw (.invalidField "v.off" "value extends outside value area")
  return n.bytes.extract start (start + len)

/-- The pointer that an index node holds as the value of an entry. -/
def child (n : Node) (sizes : Option EntrySizes) (index : Nat) : Except DecodeError ObjectId := do
  if n.isLeaf then throw (.invalidField "btn_level" "leaf nodes have no children")
  let pointer ← n.value sizes index
  if pointer.size ≠ pointerSize.toNat then
    throw (.invalidField "v.len" "child pointer is not 8 bytes")
  n.order.read64 pointer 0

end Node

end ObjectStore.Tree
