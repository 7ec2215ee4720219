import ObjectStore.Proofs.BuiltObjects
import ObjectStore.Proofs.CheckedChecksum

/-
The decoders of whole objects on a machine. The entries of a checkpoint block are cut out of
it one by one, which its declared count cannot take past the end.
-/
namespace ObjectStore

namespace Reader

def header : Reader ObjectHeader.codec :=
  (word64.seq <| word64.seq <| word64.seq <| word32.seq word32).map

def versionKey : Reader VersionKey.codec := (word64.seq word64).map

def mapping : Reader Mapping.codec := (word32.seq <| word32.seq word64).map

def snapshot : Reader Snapshot.codec := (word32.seq <| (pad 4).seq word64).map

def mapDescriptor : Reader MapDescriptor.codec :=
  (header.seq <| word32.seq <| word32.seq <| word32.seq <| word32.seq <| word64.seq <|
    word64.seq <| word64.seq <| word64.seq word64).map

def ephemeralMapping : Reader EphemeralMapping.codec :=
  (word32.seq <| word32.seq <| word32.seq <| (pad 4).seq <| word64.seq <|
    word64.seq word64).map

def mapBlockFront : Reader MapBlock.frontCodec := header.seq <| word32.seq word32

def superblock : Reader Superblock.codec :=
  (header.seq <| word32.seq <| word32.seq <| word64.seq <| word64.seq <| word64.seq <|
    word64.seq <| (raw 16).seq <| word64.seq <| word64.seq <| word32.seq <| word32.seq <|
    word64.seq <| word64.seq <| word32.seq <| word32.seq <| word32.seq <| word32.seq <|
    word32.seq <| word32.seq <| word64.seq <| word64.seq <| word64.seq <| word32.seq <|
    word32.seq <| word64.table 0 Superblock.volumeSlots).map

end Reader

namespace Checked

def header (e : ByteOrder) (b : Bytes) : Decoding ObjectHeader := Reader.header.decode e b

theorem header_runs (e : ByteOrder) (b : Bytes) : Runs (header e b) (ObjectHeader.parse e b) :=
  Reader.header.decode_runs (by decide) e b

def mapDescriptor (e : ByteOrder) (b : Bytes) : Decoding MapDescriptor := do
  let d ← Reader.mapDescriptor.decode e b
  ofExcept (d.header.expectCode TypeWord.objectMap)
  return d

theorem mapDescriptor_runs (e : ByteOrder) (b : Bytes) :
    Runs (mapDescriptor e b) (MapDescriptor.parse e b) := by
  refine (Reader.mapDescriptor.decode_runs (by decide) e b).bind fun d _ => ?_
  exact (Runs.ofExcept _).bind fun _ _ => .done d

def versionKey (e : ByteOrder) (b : Bytes) : Decoding VersionKey := Reader.versionKey.read e b 0

theorem versionKey_runs (e : ByteOrder) (b : Bytes) :
    Runs (versionKey e b) (VersionKey.parse e b) :=
  Reader.versionKey.read_runs e b 0 (by decide)

def mapping (e : ByteOrder) (b : Bytes) : Decoding Mapping := Reader.mapping.read e b 0

theorem mapping_runs (e : ByteOrder) (b : Bytes) : Runs (mapping e b) (Mapping.parse e b) :=
  Reader.mapping.read_runs e b 0 (by decide)

def snapshot (e : ByteOrder) (b : Bytes) : Decoding Snapshot := Reader.snapshot.read e b 0

theorem snapshot_runs (e : ByteOrder) (b : Bytes) : Runs (snapshot e b) (Snapshot.parse e b) :=
  Reader.snapshot.read_runs e b 0 (by decide)

def ephemeralMapping (e : ByteOrder) (b : Bytes) : Decoding EphemeralMapping :=
  Reader.ephemeralMapping.read e b 0

theorem ephemeralMapping_runs (e : ByteOrder) (b : Bytes) :
    Runs (ephemeralMapping e b) (EphemeralMapping.parse e b) :=
  Reader.ephemeralMapping.read_runs e b 0 (by decide)

def capacity (len : Nat) : Machine Nat :=
  Machine.div (len - MapBlock.frontSize) EphemeralMapping.codec.size

/-- The mapping with a number, parsed from the rest of the block that starts with it. -/
def mappingAt (e : ByteOrder) (block : Bytes) (i : Nat) : Decoding EphemeralMapping := do
  let skipped ← Machine.mul 64 i EphemeralMapping.codec.size
  let start ← Machine.add 64 MapBlock.frontSize skipped
  let rest ← Machine.slice block start block.size
  ephemeralMapping e rest

def mapBlock (e : ByteOrder) (block : Bytes) : Decoding MapBlock := do
  let (header, flags, count) ← Reader.mapBlockFront.decode e block
  ofExcept (header.expectCode TypeWord.checkpointMap)
  let capacity ← capacity block.size
  if capacity < count.toNat then throw MapBlock.overfull
  let mappings ← (List.range count.toNat).mapM (mappingAt e block)
  return ⟨header, flags, mappings⟩

theorem mappingAt_runs (e : ByteOrder) {block : Bytes} (held : block.size < Bytes.addressLimit)
    {i : Nat} (fits : MapBlock.mappingOffset (i + 1) ≤ block.size) :
    Runs (mappingAt e block i)
      (EphemeralMapping.codec.read e block (MapBlock.mappingOffset i)) := by
  have limit : Bytes.addressLimit = 2 ^ 64 := rfl
  have width : EphemeralMapping.codec.size = 40 := rfl
  have front : MapBlock.frontSize = 40 := rfl
  have next : MapBlock.mappingOffset (i + 1) = 40 + (i + 1) * 40 := rfl
  have offset : MapBlock.mappingOffset i = MapBlock.frontSize + i * EphemeralMapping.codec.size :=
    rfl
  have skipped : i * EphemeralMapping.codec.size = i * 40 := by rw [width]
  have rest_size : (block.extract (MapBlock.mappingOffset i) block.size).size
      = block.size - MapBlock.mappingOffset i := Bytes.size_extract_of_le (Nat.le_refl _)
  have moved : EphemeralMapping.codec.read e block (MapBlock.mappingOffset i)
      = EphemeralMapping.parse e (block.extract (MapBlock.mappingOffset i) block.size) := by
    refine EphemeralMapping.codec_lawful.same_bytes ⟨by omega, by omega, held, by omega, ?_⟩
    intro j lt
    rw [Bytes.getPadded_extract (by omega), Nat.zero_add]
  rw [moved]
  refine .carried (Machine.mul_eq (by omega)) ?_
  refine .carried (Machine.add_eq (by omega)) ?_
  refine .carried (Machine.slice_eq (by omega) (Nat.le_refl _)) ?_
  exact ephemeralMapping_runs e _

theorem mapBlock_runs (e : ByteOrder) {block : Bytes} (held : block.size < Bytes.addressLimit) :
    Runs (mapBlock e block) (MapBlock.parse e block) := by
  have width : EphemeralMapping.codec.size = 40 := rfl
  have front : MapBlock.frontSize = 40 := rfl
  refine (Reader.mapBlockFront.decode_runs (by decide) e block).bind fun (header, flags, count) _ =>
    ?_
  refine (Runs.ofExcept _).bind fun _ _ => ?_
  refine .carried (Machine.div_eq (by decide)) ?_
  refine .checked fun room => ?_
  refine .bind (.mapM fun i mem => mappingAt_runs e held ?_) fun mappings _ => .done _
  have below := List.mem_range.mp mem
  have offset : MapBlock.mappingOffset (i + 1) = 40 + (i + 1) * 40 := rfl
  rw [front, width] at room
  omega

def detectOrder (block : Bytes) : Decoding ByteOrder := do
  let magic ← fixed block Superblock.magicOffset 4
  match ByteOrder.ofMagic? magic.data.toList with
  | some e => return e
  | none =>
    throw (.invalidMagic containerMagic.toUInt64 (ByteOrder.little.wordOf magic.data.toList))

theorem detectOrder_runs (block : Bytes) :
    Runs (detectOrder block) (Superblock.detectOrder block) := by
  refine (fixed_runs block Superblock.magicOffset 4).bind fun magic _ => ?_
  dsimp only
  cases ByteOrder.ofMagic? magic.data.toList with
  | some e => exact .done e
  | none => exact .refused _

def superblock (e : ByteOrder) (block : Bytes) : Decoding Superblock := do
  let (magic, s) ← Reader.superblock.decode e block
  if magic ≠ containerMagic then
    throw (.invalidMagic containerMagic.toUInt64 magic.toUInt64)
  ofExcept (s.header.expectCode TypeWord.containerSuperblock)
  let _ ← ofExcept (BlockSize.ofWord s.blockSize)
  if Superblock.volumeSlots < s.maxVolumes.toNat then
    throw (.invalidField "nx_max_file_systems" "exceeds NX_MAX_FILE_SYSTEMS")
  return s

theorem superblock_runs (e : ByteOrder) (block : Bytes) :
    Runs (superblock e block) (Superblock.parse e block) := by
  have short : Superblock.codec.size < 2 ^ 64 := by
    rw [Superblock.size_codec]
    decide
  refine (Reader.superblock.decode_runs short e block).bind fun (magic, s) _ => ?_
  refine .checked fun _ => ?_
  refine (Runs.ofExcept _).bind fun _ _ => ?_
  refine (Runs.ofExcept _).bind fun _ _ => ?_
  exact .checked fun _ => .done s

end Checked

end ObjectStore
