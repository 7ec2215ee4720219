import ObjectStore.Draft.Entry
import ObjectStore.Object.Checksum

/-
Tree nodes to be built. The block of a node is its header, the slots, the keys in order, free
space, the values in reverse order and, in a root, the footer.
-/
namespace ObjectStore

structure NodeDraft where
  order : ByteOrder
  nodeSize : Nat
  object : ObjectHeader
  level : UInt16
  root : Bool
  layout : EntryLayout
  /-- Flags beyond those that the other fields imply. -/
  flags : UInt16
  /-- The footer of a root, where it is not to be derived. -/
  footer : Option Tree.Footer
  entries : List Entry

namespace NodeDraft

def blank (order : ByteOrder) (nodeSize : Nat) : NodeDraft where
  order := order
  nodeSize := nodeSize
  object := ⟨0, 0, 1, TypeWord.treeNode ||| TypeWord.physicalFlag, TypeWord.objectMap⟩
  level := 0
  root := false
  layout := .variable
  flags := 0
  footer := none
  entries := []

def fit16 (quantity : String) (n : Nat) : Except BuildError UInt16 :=
  if n < UInt16.size then .ok n.toUInt16 else .error (.tooLarge quantity)

def fit32 (quantity : String) (n : Nat) : Except BuildError UInt32 :=
  if n < UInt32.size then .ok n.toUInt32 else .error (.tooLarge quantity)

def isLeaf (d : NodeDraft) : Bool := d.level == 0

def keyStart (d : NodeDraft) : Nat :=
  Tree.NodeHeader.size + d.entries.length * d.layout.slotSize

/-- Where the values end, which in a root is in front of the footer. -/
def valueEnd (d : NodeDraft) : Except BuildError Nat :=
  if !d.root then .ok d.nodeSize
  else if d.nodeSize < Tree.Footer.size then .error .footerRoom
  else .ok (d.nodeSize - Tree.Footer.size)

/-- In a tree with fixed slots every entry has the lengths of the tree. -/
def checkLengths (d : NodeDraft) (index : Nat) (entry : Entry) : Except BuildError Unit := do
  match d.layout with
  | .variable => return ()
  | .fixed sizes =>
      let value := sizes.valueIn d.isLeaf
      if entry.1.size ≠ sizes.key.toNat then
        throw (.keyLength index entry.1.size sizes.key.toNat)
      if entry.2.size ≠ value.toNat then throw (.valueLength index entry.2.size value.toNat)

/-- The slot of an entry behind `keys` bytes of keys, whose value begins `values` bytes before
the end of the values. -/
def slotOf (d : NodeDraft) (entry : Entry) (keys values : Nat) :
    Except BuildError Tree.Slot := do
  let keyOff ← fit16 "key offset" keys
  let valueOff ← fit16 "value offset" values
  match d.layout with
  | .fixed _ => return .fixed keyOff valueOff
  | .variable =>
      let keyLen ← fit16 "key length" entry.1.size
      let valueLen ← fit16 "value length" entry.2.size
      return .variable ⟨keyOff, keyLen⟩ ⟨valueOff, valueLen⟩

/-- The slots of entries, the first of which has the given index and lies behind `keys` bytes
of keys and before `values` bytes of values. -/
def slotsFrom (d : NodeDraft) (valueEnd index keys values : Nat) :
    List Entry → Except BuildError (List Tree.Slot)
  | [] => .ok []
  | entry :: rest => do
      d.checkLengths index entry
      let values := values + entry.2.size
      if valueEnd < values then throw (.valueRoom index)
      if valueEnd - values < d.keyStart + keys + entry.1.size then throw (.entryRoom index)
      let slot ← d.slotOf entry keys values
      let slots ← d.slotsFrom valueEnd (index + 1) (keys + entry.1.size) values rest
      return slot :: slots

/-- What a root says of a tree that it makes up alone. -/
def derivedFooter (d : NodeDraft) : Except BuildError Tree.Footer := do
  match d.object.storage? with
  | none => throw .storageBits
  | some storage =>
      return {
        flags := match storage with
          | .physical => Tree.Footer.physicalFlag
          | .virtual => 0
          | .ephemeral => Tree.Footer.ephemeralFlag
        nodeSize := ← fit32 "node size" d.nodeSize
        keySize := d.layout.stated.key
        valueSize := d.layout.stated.value
        longestKey := ← fit32 "longest key" (Entry.longestKey d.entries)
        longestValue := ← fit32 "longest value" (Entry.longestValue d.entries)
        keyCount := d.entries.length.toUInt64
        nodeCount := 1 }

def nodeFlags (d : NodeDraft) : UInt16 :=
  d.flags ||| (if d.root then Tree.NodeHeader.rootFlag else 0) |||
    (if d.isLeaf then Tree.NodeHeader.leafFlag else 0) |||
    (if d.layout.isFixed then Tree.NodeHeader.fixedFlag else 0)

def noFreeList : Tree.Extent := ⟨0xFFFF, 0⟩

def header (d : NodeDraft) (free : Nat) : Except BuildError Tree.NodeHeader := do
  return {
    object := d.object
    flags := d.nodeFlags
    level := d.level
    keyCount := ← fit32 "key count" d.entries.length
    tableSpace := ⟨0, ← fit16 "toc length" (d.entries.length * d.layout.slotSize)⟩
    freeSpace := ⟨← fit16 "free space offset" (Entry.keyBytes d.entries),
      ← fit16 "free space length" free⟩
    keyFreeList := noFreeList
    valueFreeList := noFreeList }

def footerBytes (d : NodeDraft) : Except BuildError Bytes := do
  if !d.root then return ByteArray.empty
  match d.footer with
  | some footer => return Tree.Footer.codec.encode d.order footer
  | none => return Tree.Footer.codec.encode d.order (← d.derivedFooter)

def concat (parts : List Bytes) : Bytes := parts.foldl (· ++ ·) ByteArray.empty

def build (d : NodeDraft) : Except BuildError Bytes := do
  let valueEnd ← d.valueEnd
  if valueEnd < d.keyStart then throw .tableRoom
  let slots ← d.slotsFrom valueEnd 0 0 0 d.entries
  let free := valueEnd - d.keyStart - Entry.keyBytes d.entries - Entry.valueBytes d.entries
  let header ← d.header free
  let footer ← d.footerBytes
  let block := concat ([Tree.NodeHeader.codec.encode d.order header] ++
    slots.map ((Tree.Slot.codec d.layout.isFixed).encode d.order) ++
    d.entries.map Prod.fst ++ [Bytes.zeros free] ++ (d.entries.map Prod.snd).reverse ++ [footer])
  ((Object.writeChecksum d.order).apply block).mapError .decode

end NodeDraft

end ObjectStore
