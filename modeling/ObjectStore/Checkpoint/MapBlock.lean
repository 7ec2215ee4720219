import ObjectStore.Object.Header

/-
The blocks in which a checkpoint says where its ephemeral objects lie. The mappings of a block
are in no order; the last block of a checkpoint is flagged.
-/
namespace ObjectStore

structure EphemeralMapping where
  objectType : UInt32
  subtype : UInt32
  size : UInt32
  volumeOid : ObjectId
  oid : ObjectId
  address : BlockAddress
  deriving DecidableEq, Repr

namespace EphemeralMapping

def codec : Codec EphemeralMapping :=
  (Codec.word32.seq <| Codec.word32.seq <| Codec.word32.seq <| (Codec.pad 4).seq <|
      Codec.word64.seq <| Codec.word64.seq Codec.word64).map
    (fun (objectType, subtype, size, _, volumeOid, oid, address) =>
      ⟨objectType, subtype, size, volumeOid, oid, address⟩)
    (fun m => (m.objectType, m.subtype, m.size, (), m.volumeOid, m.oid, m.address))

def parse (e : ByteOrder) (b : Bytes) : Except DecodeError EphemeralMapping := codec.read e b 0
def encode (e : ByteOrder) (m : EphemeralMapping) : Bytes := codec.encode e m

/-- Writes the whole record, padding included, or nothing. -/
def write (e : ByteOrder) (offset : Nat) (m : EphemeralMapping) : Encoder Unit := fun b =>
  if b.size < offset + codec.size then
    (.error (.insufficientData codec.size 0 (b.size - offset)), b)
  else (.ok (), b.overwrite offset (m.encode e))

end EphemeralMapping

structure MapBlock where
  header : ObjectHeader
  flags : UInt32
  mappings : List EphemeralMapping
  deriving DecidableEq, Repr

namespace MapBlock

def lastFlag : UInt32 := 0x01

/-- The header of the block, its flags and the number of its mappings. -/
def frontCodec : Codec (ObjectHeader × UInt32 × UInt32) :=
  ObjectHeader.codec.seq <| Codec.word32.seq Codec.word32

def frontSize : Nat := 40

def capacity (len : Nat) : Nat := (len - frontSize) / EphemeralMapping.codec.size

def overfull : DecodeError := .invalidField "cpm_count" "exceeds block capacity"

def mappingOffset (index : Nat) : Nat := frontSize + index * EphemeralMapping.codec.size

def parse (e : ByteOrder) (block : Bytes) : Except DecodeError MapBlock := do
  let (header, flags, count) ← frontCodec.decode e block
  header.expectCode TypeWord.checkpointMap
  if capacity block.size < count.toNat then throw overfull
  let mappings ← (List.range count.toNat).mapM fun i =>
    EphemeralMapping.codec.read e block (mappingOffset i)
  return ⟨header, flags, mappings⟩

/-- Writes mappings one behind the other, the first at the given index. -/
def writeMappings (e : ByteOrder) : Nat → List EphemeralMapping → Encoder Unit
  | _, [] => pure ()
  | index, m :: rest => do
      m.write e (mappingOffset index)
      writeMappings e (index + 1) rest

/-- Leaves the checksum as the header has it. -/
def encode (e : ByteOrder) (b : MapBlock) : Encoder Unit := do
  let room := (← get).size
  if capacity room < b.mappings.length then throw overfull
  b.header.encode e
  e.put32 0x20 b.flags
  if b.mappings.length < UInt32.size then
    e.put32 0x24 b.mappings.length.toUInt32
  else throw (.integerConversion "cpm_count")
  writeMappings e 0 b.mappings

def isLast (b : MapBlock) : Bool := hasFlag b.flags lastFlag

def find (b : MapBlock) (oid : ObjectId) : Option EphemeralMapping :=
  b.mappings.find? (·.oid == oid)

end MapBlock

end ObjectStore
