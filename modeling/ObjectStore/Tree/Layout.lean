import ObjectStore.Object.Header

/-
The fixed parts of a tree node: the header with its table of contents, the footer of the root
and the two shapes of a slot in the table of contents.

  0        32          56         56+toc.off+toc.len              value end   len
  | object | node      | slots .. | keys -> | free | <- values   | [footer] |

Keys are addressed forwards from the end of the table of contents, values backwards from the
end of the value area.
-/
namespace ObjectStore.Tree

/-- A region of a node, or of one of its areas. -/
structure Extent where
  off : UInt16
  len : UInt16
  deriving DecidableEq, Repr

def Extent.codec : Codec Extent :=
  (Codec.word16.seq Codec.word16).map (fun (off, len) => ⟨off, len⟩) (fun x => (x.off, x.len))

structure NodeHeader where
  object : ObjectHeader
  flags : UInt16
  level : UInt16
  keyCount : UInt32
  tableSpace : Extent
  freeSpace : Extent
  keyFreeList : Extent
  valueFreeList : Extent
  deriving DecidableEq, Repr

namespace NodeHeader

def size : Nat := 56

def codec : Codec NodeHeader :=
  (ObjectHeader.codec.seq <| Codec.word16.seq <| Codec.word16.seq <| Codec.word32.seq <|
      Extent.codec.seq <| Extent.codec.seq <| Extent.codec.seq Extent.codec).map
    (fun (object, flags, level, keyCount, table, free, keyFree, valueFree) =>
      ⟨object, flags, level, keyCount, table, free, keyFree, valueFree⟩)
    (fun h => (h.object, h.flags, h.level, h.keyCount, h.tableSpace, h.freeSpace,
      h.keyFreeList, h.valueFreeList))

def parse (e : ByteOrder) (b : Bytes) : Except DecodeError NodeHeader := codec.decode e b
def encode (e : ByteOrder) (h : NodeHeader) : Encoder Unit := codec.write e 0 h

def rootFlag : UInt16 := 0x0001
def leafFlag : UInt16 := 0x0002
def fixedFlag : UInt16 := 0x0004
def hashedFlag : UInt16 := 0x0008
def noHeaderFlag : UInt16 := 0x0010
def checkOffsetsFlag : UInt16 := 0x8000

def has (h : NodeHeader) (flag : UInt16) : Bool := h.flags &&& flag != 0

def isRoot (h : NodeHeader) : Bool := h.has rootFlag
def isLeaf (h : NodeHeader) : Bool := h.has leafFlag

/-- Slots hold offsets only; the lengths are those of the whole tree. -/
def isFixed (h : NodeHeader) : Bool := h.has fixedFlag

end NodeHeader

/-- What a root says of its whole tree, in its last bytes. -/
structure Footer where
  flags : UInt32
  nodeSize : UInt32
  keySize : UInt32
  valueSize : UInt32
  longestKey : UInt32
  longestValue : UInt32
  keyCount : UInt64
  nodeCount : UInt64
  deriving DecidableEq, Repr

namespace Footer

def size : Nat := 40

def ephemeralFlag : UInt32 := 0x08
def physicalFlag : UInt32 := 0x10

def codec : Codec Footer :=
  (Codec.word32.seq <| Codec.word32.seq <| Codec.word32.seq <| Codec.word32.seq <|
      Codec.word32.seq <| Codec.word32.seq <| Codec.word64.seq Codec.word64).map
    (fun (flags, nodeSize, keySize, valueSize, longestKey, longestValue, keyCount, nodeCount) =>
      ⟨flags, nodeSize, keySize, valueSize, longestKey, longestValue, keyCount, nodeCount⟩)
    (fun f => (f.flags, f.nodeSize, f.keySize, f.valueSize, f.longestKey, f.longestValue,
      f.keyCount, f.nodeCount))

def parse (e : ByteOrder) (b : Bytes) : Except DecodeError Footer := codec.read e b 0
def encode (e : ByteOrder) (f : Footer) : Encoder Unit := codec.write e 0 f

def ofRoot (e : ByteOrder) (block : Bytes) : Except DecodeError Footer := do
  Bytes.require block size
  parse e (block.drop (block.size - size))

end Footer

def pointerSize : UInt32 := 8

/-- Lengths of the keys and leaf values of a tree whose slots are fixed. -/
structure EntrySizes where
  key : UInt32
  value : UInt32
  deriving DecidableEq, Repr

namespace EntrySizes

def ofFooter (f : Footer) : EntrySizes := ⟨f.keySize, f.valueSize⟩

/-- Index nodes hold pointers in place of values. -/
def valueIn (s : EntrySizes) (leaf : Bool) : UInt32 := if leaf then s.value else pointerSize

end EntrySizes

/-- Where an entry lies: offsets alone, or offsets and lengths. -/
inductive Slot where
  | fixed (key value : UInt16)
  | variable (key value : Extent)
  deriving DecidableEq, Repr

namespace Slot

/-- The value offset of an entry without a value. -/
def noValue : UInt16 := 0xFFFF

def sizeOf (fixed : Bool) : Nat := if fixed then 4 else 8

def codec (fixed : Bool) : Codec Slot :=
  if fixed then
    (Codec.word16.seq Codec.word16).map (fun (key, value) => .fixed key value) fun
      | .fixed key value => (key, value)
      | .variable key value => (key.off, value.off)
  else
    (Extent.codec.seq Extent.codec).map (fun (key, value) => .variable key value) fun
      | .fixed key value => (⟨key, 0⟩, ⟨value, 0⟩)
      | .variable key value => (key, value)

def keyRange (s : Slot) (sizes : Option EntrySizes) : Except DecodeError (Nat × Nat) :=
  match s, sizes with
  | .variable key _, _ => .ok (key.off.toNat, key.len.toNat)
  | .fixed off _, some sizes => .ok (off.toNat, sizes.key.toNat)
  | .fixed _ _, none =>
      .error (.invalidField "btn_flags" "fixed-size node without key geometry")

def valueRange (s : Slot) (sizes : Option EntrySizes) (leaf : Bool) :
    Except DecodeError (UInt16 × Nat) :=
  match s, sizes with
  | .variable _ value, _ => .ok (value.off, value.len.toNat)
  | .fixed _ off, some sizes => .ok (off, (sizes.valueIn leaf).toNat)
  | .fixed _ _, none =>
      .error (.invalidField "btn_flags" "fixed-size node without value geometry")

end Slot

end ObjectStore.Tree
