import ObjectStore.Checkpoint.MapBlock
import ObjectStore.ObjectMap.Descriptor
import ObjectStore.ObjectMap.Record
import ObjectStore.Proofs.RecordFormats
import ObjectStore.Proofs.StoredFields
import ObjectStore.Superblock
import ObjectStore.Tree.Layout

/-
The records of fixed layout, each with the table of its parts. A table names for each field of a
value where it lies, how wide it is and what is stored there; that its codec keeps to the table is
all that has to be known of the codec.
-/
namespace ObjectStore

open Codec

/-- Where a part holds a field of four bytes, that field is found. -/
theorem Part.field32_of_holds {α : Type} {e : ByteOrder} {b : Bytes} {v : α} {place : Nat}
    {value : α → UInt32} (holds : (word place .four fun v => (value v).toUInt64).Holds e b 0 v) :
    e.field32 b place = value v := by
  have stored := field_of_holds holds
  rw [Nat.zero_add] at stored
  rw [ByteOrder.field32, stored, ByteOrder.toUInt32_wordOf_bytesOf]

namespace ObjectHeader

def parts : List (Part ObjectHeader) :=
  [.word 0x00 .eight (·.checksum), .word 0x08 .eight (·.oid), .word 0x10 .eight (·.xid),
    .word 0x18 .four (·.typeWord.toUInt64), .word 0x1C .four (·.subtype.toUInt64)]

theorem codec_exact : Exact codec id parts :=
  ((word64_exact.seq <| word64_exact.seq <| word64_exact.seq <|
    word32_exact.seq word32_exact).map _ _ fun _ => rfl).congr (fun _ => rfl) rfl

theorem codec_lawful : Lawful codec id := codec_exact.lawful

theorem gaps : Gaps parts [] := gaps_nil (by simp [parts])

end ObjectHeader

namespace Tree

namespace Extent

def parts : List (Part Extent) :=
  [.word 0 .two (·.off.toUInt64), .word 2 .two (·.len.toUInt64)]

theorem codec_exact : Exact codec id parts :=
  ((word16_exact.seq word16_exact).map _ _ fun _ => rfl).congr (fun _ => rfl) rfl

end Extent

namespace NodeHeader

def fields : Codec (UInt16 × UInt16 × UInt32 × Extent × Extent × Extent × Extent) :=
  word16.seq <| word16.seq <| word32.seq <| Extent.codec.seq <| Extent.codec.seq <|
    Extent.codec.seq Extent.codec

theorem fields_lawful : Lawful fields id :=
  (word16_exact.seq <| word16_exact.seq <| word32_exact.seq <| Extent.codec_exact.seq <|
    Extent.codec_exact.seq <| Extent.codec_exact.seq Extent.codec_exact).lawful.congr fun _ => rfl

def parts : List (Part NodeHeader) :=
  ObjectHeader.parts.map (·.within 0 (·.object)) ++
    [.word 0x20 .two (·.flags.toUInt64), .word 0x22 .two (·.level.toUInt64),
      .word 0x24 .four (·.keyCount.toUInt64),
      .word 0x28 .two (·.tableSpace.off.toUInt64), .word 0x2A .two (·.tableSpace.len.toUInt64),
      .word 0x2C .two (·.freeSpace.off.toUInt64), .word 0x2E .two (·.freeSpace.len.toUInt64),
      .word 0x30 .two (·.keyFreeList.off.toUInt64), .word 0x32 .two (·.keyFreeList.len.toUInt64),
      .word 0x34 .two (·.valueFreeList.off.toUInt64),
      .word 0x36 .two (·.valueFreeList.len.toUInt64)]

theorem codec_exact : Exact codec id parts :=
  ((ObjectHeader.codec_exact.seq <| word16_exact.seq <| word16_exact.seq <| word32_exact.seq <|
    Extent.codec_exact.seq <| Extent.codec_exact.seq <| Extent.codec_exact.seq
      Extent.codec_exact).map _ _ fun _ => rfl).congr (fun _ => rfl) rfl

theorem codec_lawful : Lawful codec id := codec_exact.lawful

theorem gaps : Gaps parts [] := gaps_nil (by simp [parts, ObjectHeader.parts])

end NodeHeader

namespace Footer

def parts : List (Part Footer) :=
  [.word 0x00 .four (·.flags.toUInt64), .word 0x04 .four (·.nodeSize.toUInt64),
    .word 0x08 .four (·.keySize.toUInt64), .word 0x0C .four (·.valueSize.toUInt64),
    .word 0x10 .four (·.longestKey.toUInt64), .word 0x14 .four (·.longestValue.toUInt64),
    .word 0x18 .eight (·.keyCount), .word 0x20 .eight (·.nodeCount)]

theorem codec_exact : Exact codec id parts :=
  ((word32_exact.seq <| word32_exact.seq <| word32_exact.seq <| word32_exact.seq <|
    word32_exact.seq <| word32_exact.seq <| word64_exact.seq word64_exact).map _ _
      fun _ => rfl).congr (fun _ => rfl) rfl

theorem codec_lawful : Lawful codec id := codec_exact.lawful

theorem gaps : Gaps parts [] := gaps_nil (by simp [parts])

end Footer

namespace Slot

def normal (fixed : Bool) : Slot → Slot
  | .fixed key value => if fixed then .fixed key value else .variable ⟨key, 0⟩ ⟨value, 0⟩
  | .variable key value => if fixed then .fixed key.off value.off else .variable key value

theorem size_codec (fixed : Bool) : (codec fixed).size = sizeOf fixed := by
  cases fixed <;> rfl

theorem codec_lawful (fixed : Bool) : Lawful (codec fixed) (normal fixed) := by
  cases fixed with
  | true =>
    exact ((word16_exact.seq word16_exact).map _ _ fun _ => rfl).lawful.congr fun s => by
      cases s <;> rfl
  | false =>
    exact ((Extent.codec_exact.seq Extent.codec_exact).map _ _ fun _ => rfl).lawful.congr
      fun s => by cases s <;> rfl

end Slot

end Tree

namespace MapDescriptor

def parts : List (Part MapDescriptor) :=
  ObjectHeader.parts.map (·.within 0 (·.header)) ++
    [.word 0x20 .four (·.flags.toUInt64), .word 0x24 .four (·.snapshotCount.toUInt64),
      .word 0x28 .four (·.treeType.toUInt64), .word 0x2C .four (·.snapshotTreeType.toUInt64),
      .word 0x30 .eight (·.treeOid), .word 0x38 .eight (·.snapshotTreeOid),
      .word 0x40 .eight (·.mostRecentSnapshot), .word 0x48 .eight (·.pendingRevertMin),
      .word 0x50 .eight (·.pendingRevertMax)]

theorem codec_exact : Exact codec id parts :=
  ((ObjectHeader.codec_exact.seq <| word32_exact.seq <| word32_exact.seq <| word32_exact.seq <|
    word32_exact.seq <| word64_exact.seq <| word64_exact.seq <| word64_exact.seq <|
    word64_exact.seq word64_exact).map _ _ fun _ => rfl).congr (fun _ => rfl) rfl

theorem codec_lawful : Lawful codec id := codec_exact.lawful

theorem gaps : Gaps parts [] := gaps_nil (by simp [parts, ObjectHeader.parts])

/-- Of all descriptors, those with the type of an object map are parsed. -/
theorem faithful : Faithful codec.size parts []
    (fun d => d.header.typeCode = TypeWord.objectMap) parse codec.encode := by
  refine codec_exact.faithful (by decide) gaps (fun {e b v} fits => ?_) fun short => ?_
  · rw [parse, bind_eq_ok, decode_of_fits fits]
    constructor
    · rintro ⟨d, read, checked⟩
      obtain ⟨_, expected, same⟩ := bind_eq_ok.mp checked
      cases same
      exact ⟨read, ObjectHeader.expectCode_eq_ok.mp expected⟩
    · rintro ⟨read, typed⟩
      exact ⟨v, read, bind_eq_ok.mpr ⟨(), ObjectHeader.expectCode_eq_ok.mpr typed, rfl⟩⟩
  · exact (decode_short short).bind _

end MapDescriptor

namespace VersionKey

def parts : List (Part VersionKey) := [.word 0x00 .eight (·.oid), .word 0x08 .eight (·.xid)]

theorem codec_exact : Exact codec id parts :=
  ((word64_exact.seq word64_exact).map _ _ fun _ => rfl).congr (fun _ => rfl) rfl

theorem gaps : Gaps parts [] := gaps_nil (by simp [parts])

theorem faithful : Faithful 16 parts [] (fun _ => True) parse encode :=
  codec_exact.faithful_read (by decide) gaps

theorem size_encode (e : ByteOrder) (k : VersionKey) : (k.encode e).size = 16 :=
  faithful.size_encode e k

theorem parse_encode (e : ByteOrder) (k : VersionKey) : parse e (k.encode e) = .ok k :=
  (codec_exact.lawful.read_encode (by decide) e k).2

end VersionKey

namespace Mapping

def parts : List (Part Mapping) :=
  [.word 0x00 .four (·.flags.toUInt64), .word 0x04 .four (·.size.toUInt64),
    .word 0x08 .eight (·.address)]

theorem codec_exact : Exact codec id parts :=
  ((word32_exact.seq <| word32_exact.seq word64_exact).map _ _ fun _ => rfl).congr
    (fun _ => rfl) rfl

theorem gaps : Gaps parts [] := gaps_nil (by simp [parts])

theorem faithful : Faithful 16 parts [] (fun _ => True) parse encode :=
  codec_exact.faithful_read (by decide) gaps

theorem size_encode (e : ByteOrder) (v : Mapping) : (v.encode e).size = 16 :=
  faithful.size_encode e v

theorem parse_encode (e : ByteOrder) (v : Mapping) : parse e (v.encode e) = .ok v :=
  (codec_exact.lawful.read_encode (by decide) e v).2

end Mapping

namespace Snapshot

def parts : List (Part Snapshot) :=
  [.word 0x00 .four (·.flags.toUInt64), .padding 0x04 4, .word 0x08 .eight (·.oid)]

theorem codec_exact : Exact codec id parts :=
  ((word32_exact.seq <| word64_exact.padded 4).map _ _ fun _ => rfl).congr (fun _ => rfl) rfl

theorem gaps : Gaps parts [4, 5, 6, 7] := by
  intro i
  simp [parts]
  omega

theorem faithful : Faithful 16 parts [4, 5, 6, 7] (fun _ => True) parse encode :=
  codec_exact.faithful_read (by decide) gaps

theorem size_encode (e : ByteOrder) (s : Snapshot) : (s.encode e).size = 16 :=
  faithful.size_encode e s

end Snapshot

namespace EphemeralMapping

def parts : List (Part EphemeralMapping) :=
  [.word 0x00 .four (·.objectType.toUInt64), .word 0x04 .four (·.subtype.toUInt64),
    .word 0x08 .four (·.size.toUInt64), .padding 0x0C 4, .word 0x10 .eight (·.volumeOid),
    .word 0x18 .eight (·.oid), .word 0x20 .eight (·.address)]

theorem codec_exact : Exact codec id parts :=
  ((word32_exact.seq <| word32_exact.seq <| word32_exact.seq <| Exact.padded 4 <|
    word64_exact.seq <| word64_exact.seq word64_exact).map _ _ fun _ => rfl).congr
    (fun _ => rfl) rfl

theorem codec_lawful : Lawful codec id := codec_exact.lawful

theorem gaps : Gaps parts [12, 13, 14, 15] := by
  intro i
  simp [parts]
  omega

theorem faithful : Faithful 40 parts [12, 13, 14, 15] (fun _ => True) parse encode :=
  codec_exact.faithful_read (by decide) gaps

theorem size_encode (e : ByteOrder) (m : EphemeralMapping) : (m.encode e).size = 40 :=
  faithful.size_encode e m

/-- The whole record is put in place, its padding with it. -/
theorem placed : Placed 40 encode fun e m => m.write e 0 where
  fits e m b fits := by
    have width : codec.size = 40 := rfl
    have written : (m.write e 0).on b = (.ok (), b.overwrite 0 (m.encode e)) :=
      if_neg (by omega)
    rw [apply_eq_ok, written, Bytes.overwrite_front, size_encode]
  short e m b short := by
    have refused : (m.write e 0).on b = (.error (.insufficientData 40 0 (b.size - 0)), b) :=
      if_pos (by rwa [Nat.zero_add])
    refine ⟨40, 0, b.size - 0, ?_⟩
    rw [Encoder.apply, refused]

end EphemeralMapping

namespace MapBlock

def frontParts : List (Part (ObjectHeader × UInt32 × UInt32)) :=
  ObjectHeader.parts.map (·.within 0 Prod.fst) ++
    [.word 0x20 .four (·.2.1.toUInt64), .word 0x24 .four (·.2.2.toUInt64)]

theorem frontCodec_exact : Exact frontCodec id frontParts :=
  (ObjectHeader.codec_exact.seq <| word32_exact.seq word32_exact).congr (fun _ => rfl) rfl

theorem frontCodec_lawful : Lawful frontCodec id := frontCodec_exact.lawful

theorem front_gaps : Gaps frontParts [] := gaps_nil (by simp [frontParts, ObjectHeader.parts])

end MapBlock

namespace Superblock

def full (s : Superblock) : Superblock :=
  { s with volumes := filled 0 volumeSlots s.volumes }

def parts : List (Part (UInt32 × Superblock)) :=
  ObjectHeader.parts.map (·.within 0 (·.2.header)) ++
    [.word 0x20 .four (·.1.toUInt64), .word 0x24 .four (·.2.blockSize.toUInt64),
      .word 0x28 .eight (·.2.blockCount), .word 0x30 .eight (·.2.features),
      .word 0x38 .eight (·.2.readonlyFeatures), .word 0x40 .eight (·.2.incompatibleFeatures),
      .raw 0x48 16 (·.2.uuid), .word 0x58 .eight (·.2.nextOid), .word 0x60 .eight (·.2.nextXid),
      .word 0x68 .four (·.2.descBlocksWord.toUInt64),
      .word 0x6C .four (·.2.dataBlocksWord.toUInt64),
      .word 0x70 .eight (·.2.descBase), .word 0x78 .eight (·.2.dataBase),
      .word 0x80 .four (·.2.descNext.toUInt64), .word 0x84 .four (·.2.dataNext.toUInt64),
      .word 0x88 .four (·.2.descIndex.toUInt64), .word 0x8C .four (·.2.descLength.toUInt64),
      .word 0x90 .four (·.2.dataIndex.toUInt64), .word 0x94 .four (·.2.dataLength.toUInt64),
      .word 0x98 .eight (·.2.spaceManagerOid), .word 0xA0 .eight (·.2.objectMap),
      .word 0xA8 .eight (·.2.reaperOid), .word 0xB0 .four (·.2.testType.toUInt64),
      .word 0xB4 .four (·.2.maxVolumes.toUInt64)] ++
    (List.range volumeSlots).map fun i => .word (0xB8 + 8 * i) .eight (·.2.volumes.getD i 0)

theorem codec_exact : Exact codec (fun p => (p.1, p.2.full)) parts :=
  ((ObjectHeader.codec_exact.seq <| word32_exact.seq <| word32_exact.seq <| word64_exact.seq <|
    word64_exact.seq <| word64_exact.seq <| word64_exact.seq <| (raw_exact 16).seq <|
    word64_exact.seq <| word64_exact.seq <| word32_exact.seq <| word32_exact.seq <|
    word64_exact.seq <| word64_exact.seq <| word32_exact.seq <| word32_exact.seq <|
    word32_exact.seq <| word32_exact.seq <| word32_exact.seq <| word32_exact.seq <|
    word64_exact.seq <| word64_exact.seq <| word64_exact.seq <| word32_exact.seq <|
    word32_exact.seq (word64_exact.table 0 99)).map _ _ fun _ => rfl).congr (fun _ => rfl) rfl

theorem codec_lawful : Lawful codec fun p => (p.1, p.2.full) := codec_exact.lawful

theorem size_codec : codec.size = 984 := by
  have table_size : (word64.table 0 volumeSlots).size = 800 := size_table _ _ _
  have word_size : word64.size = 8 := rfl
  have half_size : word32.size = 4 := rfl
  have uuid_size : (Codec.raw 16).size = 16 := rfl
  have header_size : ObjectHeader.codec.size = 32 := rfl
  rw [codec, Codec.map]
  simp only [size_seq, table_size, word_size, half_size, uuid_size, header_size, Nat.reduceAdd]

theorem gaps : Gaps parts [] := gaps_nil (by simp [parts, ObjectHeader.parts])

end Superblock

/-- Every record of fixed layout is told from its value and tells it, in both byte orders. A record
with padding lays it nowhere but at the places listed, and only a descriptor is held to a type. -/
theorem fixedRecords_faithful :
    (Faithful 32 ObjectHeader.parts [] (fun _ => True) ObjectHeader.parse
        ObjectHeader.codec.encode ∧
      Placed 32 ObjectHeader.codec.encode ObjectHeader.encode) ∧
    (Faithful 56 Tree.NodeHeader.parts [] (fun _ => True) Tree.NodeHeader.parse
        Tree.NodeHeader.codec.encode ∧
      Placed 56 Tree.NodeHeader.codec.encode Tree.NodeHeader.encode) ∧
    (Faithful 40 Tree.Footer.parts [] (fun _ => True) Tree.Footer.parse
        Tree.Footer.codec.encode ∧
      Placed 40 Tree.Footer.codec.encode Tree.Footer.encode) ∧
    (Faithful 88 MapDescriptor.parts [] (fun d => d.header.typeCode = TypeWord.objectMap)
        MapDescriptor.parse MapDescriptor.codec.encode ∧
      Placed 88 MapDescriptor.codec.encode MapDescriptor.encode) ∧
    Faithful 16 VersionKey.parts [] (fun _ => True) VersionKey.parse VersionKey.encode ∧
    Faithful 16 Mapping.parts [] (fun _ => True) Mapping.parse Mapping.encode ∧
    Faithful 16 Snapshot.parts [4, 5, 6, 7] (fun _ => True) Snapshot.parse Snapshot.encode ∧
    (Faithful 40 EphemeralMapping.parts [12, 13, 14, 15] (fun _ => True) EphemeralMapping.parse
        EphemeralMapping.encode ∧
      Placed 40 EphemeralMapping.encode fun e m => m.write e 0) := by
  refine ⟨⟨?_, ?_⟩, ⟨?_, ?_⟩, ⟨?_, ?_⟩, ⟨MapDescriptor.faithful, ?_⟩, VersionKey.faithful,
    Mapping.faithful, Snapshot.faithful, EphemeralMapping.faithful, EphemeralMapping.placed⟩
  · exact ObjectHeader.codec_exact.faithful_decode (by decide) ObjectHeader.gaps
  · exact ObjectHeader.codec_exact.placed (by decide) ObjectHeader.gaps
  · exact Tree.NodeHeader.codec_exact.faithful_decode (by decide) Tree.NodeHeader.gaps
  · exact Tree.NodeHeader.codec_exact.placed (by decide) Tree.NodeHeader.gaps
  · exact Tree.Footer.codec_exact.faithful_read (by decide) Tree.Footer.gaps
  · exact Tree.Footer.codec_exact.placed (by decide) Tree.Footer.gaps
  · exact MapDescriptor.codec_exact.placed (by decide) MapDescriptor.gaps

end ObjectStore
