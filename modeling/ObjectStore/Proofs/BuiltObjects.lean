import ObjectStore.Draft.Object
import ObjectStore.Proofs.NodeParts

/-
Objects that have been built: each fills its block, verifies, and reads as what it was built from
with its checksum filled in.
-/
namespace ObjectStore

open Codec

/-- The header in front of a record is parsed by itself. -/
theorem ObjectHeader.parse_of_front {α : Type} {c : Codec α} {e : ByteOrder} {b : Bytes}
    {h : ObjectHeader} {v : α} (read : (ObjectHeader.codec.seq c).read e b 0 = .ok (h, v))
    (roomy : ObjectHeader.size ≤ b.size) : ObjectHeader.parse e b = .ok h := by
  have record : ObjectHeader.codec.size = ObjectHeader.size := rfl
  obtain ⟨header, first, rest⟩ := bind_eq_ok.mp read
  obtain ⟨fields, -, same⟩ := bind_eq_ok.mp rest
  cases same
  rw [ObjectHeader.parse, decode, Bytes.require, if_neg (by omega), ok_bind]
  exact first

section KeepsSize

def Encoder.KeepsSize (w : Encoder α) : Prop := ∀ b : Bytes, (w b).2.size = b.size

theorem keepsSize_pure (a : α) : (pure a : Encoder α).KeepsSize := fun _ => rfl

theorem keepsSize_throw (e : DecodeError) : (throw e : Encoder α).KeepsSize := fun _ => rfl

theorem keepsSize_get : (get : Encoder Bytes).KeepsSize := fun _ => rfl

theorem keepsSize_bind {w : Encoder α} {next : α → Encoder β} (first : w.KeepsSize)
    (rest : ∀ a, (next a).KeepsSize) : (w >>= next).KeepsSize := by
  intro b
  have kept := first b
  have step : (w >>= next) b = ExceptT.bindCont next (w b).1 (w b).2 := rfl
  rw [step]
  rcases run : w b with ⟨result | a, b'⟩
  · rw [run] at kept
    exact kept
  · rw [run] at kept
    exact (rest a b').trans kept

theorem keepsSize_checked {c : Prop} [Decidable c] {e : DecodeError} {next : α → Encoder β}
    {rest : Encoder β} (kept : rest.KeepsSize) :
    (if c then throw e >>= next else rest).KeepsSize := by
  split
  · exact fun _ => rfl
  · exact kept

theorem keepsSize_write (offset : Nat) (new : Bytes) : (Encoder.write offset new).KeepsSize :=
  Encoder.size_on_write offset new

theorem keepsSize_header (e : ByteOrder) (h : ObjectHeader) : (h.encode e).KeepsSize :=
  keepsSize_bind (keepsSize_write _ _) fun _ =>
    keepsSize_bind (keepsSize_write _ _) fun _ =>
      keepsSize_bind (keepsSize_write _ _) fun _ =>
        keepsSize_bind (keepsSize_write _ _) fun _ => keepsSize_write _ _

theorem keepsSize_writeMappings (e : ByteOrder) (mappings : List EphemeralMapping) :
    ∀ index, (MapBlock.writeMappings e index mappings).KeepsSize := by
  induction mappings with
  | nil => exact fun _ => keepsSize_pure ()
  | cons m rest ih =>
    intro index
    refine keepsSize_bind (fun b => ?_) (fun _ => ih _)
    unfold EphemeralMapping.write
    split
    · rfl
    · rename_i fits
      have width : EphemeralMapping.codec.size = 40 := rfl
      have size_eq := m.size_encode e
      exact Bytes.size_overwrite (by omega)

theorem keepsSize_mapBlock (e : ByteOrder) (b : MapBlock) : (b.encode e).KeepsSize := by
  refine keepsSize_bind keepsSize_get fun room => keepsSize_checked ?_
  apply keepsSize_bind (keepsSize_header e _)
  intro _
  apply keepsSize_bind (keepsSize_write _ _)
  intro _
  split
  · exact keepsSize_bind (keepsSize_write _ _) fun _ => keepsSize_writeMappings e _ _
  · exact keepsSize_bind (keepsSize_throw _) fun _ => keepsSize_writeMappings e _ _

theorem keepsSize_writeChecksum (e : ByteOrder) : (Object.writeChecksum e).KeepsSize := by
  intro b
  unfold Object.writeChecksum
  split
  · rfl
  · exact keepsSize_write _ _ b

theorem Encoder.KeepsSize.of_on {w : Encoder Unit} (kept : w.KeepsSize) {b b' : Bytes}
    {result : Except DecodeError Unit} (run : w.on b = (result, b')) : b'.size = b.size := by
  have same : (w b).2 = b' := congrArg Prod.snd run
  rw [← same]
  exact kept b

end KeepsSize

section Fits

variable {size : Nat}

def Encoder.Fits (size : Nat) (w : Encoder Unit) : Prop :=
  ∀ b : Bytes, b.size = size → ∃ b', w.on b = (.ok (), b') ∧ b'.size = size

theorem fits_pure : (pure () : Encoder Unit).Fits size :=
  fun b size_eq => ⟨b, Encoder.on_pure b, size_eq⟩

theorem fits_bind {w : Encoder Unit} {next : Unit → Encoder Unit} (first : w.Fits size)
    (rest : (next ()).Fits size) : (w >>= next).Fits size := by
  intro b size_eq
  obtain ⟨b₁, run, kept⟩ := first b size_eq
  obtain ⟨b₂, run', kept'⟩ := rest b₁ kept
  exact ⟨b₂, (Encoder.on_bind_ok next run).trans run', kept'⟩

theorem fits_codec {c : Codec α} {f : α → α} (lawful : Lawful c f) (e : ByteOrder) {offset : Nat}
    (v : α) (inside : offset + c.size ≤ size) (addressable : size < Bytes.addressLimit) :
    (c.write e offset v).Fits size := by
  intro b size_eq
  obtain ⟨b', written, -⟩ := lawful.write_read e offset v (b := b) (by omega) (by omega)
  exact ⟨b', written.done, written.size_eq.trans size_eq⟩

namespace MapBlock

theorem mappingOffset_succ (index : Nat) :
    mappingOffset (index + 1) = mappingOffset index + 40 := by
  have width : EphemeralMapping.codec.size = 40 := rfl
  rw [mappingOffset, mappingOffset, width]
  omega

theorem mappingOffset_le {n : Nat} (roomy : frontSize ≤ size) (few : n ≤ capacity size) :
    mappingOffset n ≤ size := by
  have width : EphemeralMapping.codec.size = 40 := rfl
  have front : frontSize = 40 := rfl
  have most := Nat.mul_le_of_le_div _ _ _ few
  rw [mappingOffset]
  omega

theorem encode_steps (e : ByteOrder) (block : MapBlock) (b : Bytes) : (block.encode e).on b = (do
    if capacity b.size < block.mappings.length then throw overfull
    block.header.encode e
    e.put32 0x20 block.flags
    if block.mappings.length < UInt32.size then
      e.put32 0x24 block.mappings.length.toUInt32
    else throw (.integerConversion "cpm_count")
    writeMappings e 0 block.mappings : Encoder Unit).on b := rfl

/-- The mappings are written behind the front of the block. -/
theorem encode_on {e : ByteOrder} {block : MapBlock} {b : Bytes}
    (few : block.mappings.length ≤ capacity b.size)
    (countable : block.mappings.length < UInt32.size) :
    (block.encode e).on b = (do
      frontCodec.write e 0 (block.header, block.flags, block.mappings.length.toUInt32)
      writeMappings e 0 block.mappings : Encoder Unit).on b := by
  rw [encode_steps, if_neg (Nat.not_lt.mpr few), if_pos countable]
  simp only [frontCodec, Codec.seq, bind_assoc]
  rfl

end MapBlock

theorem fits_writeMappings (e : ByteOrder) (mappings : List EphemeralMapping) :
    ∀ index, MapBlock.mappingOffset (index + mappings.length) ≤ size →
      (MapBlock.writeMappings e index mappings).Fits size := by
  induction mappings with
  | nil => exact fun _ _ => fits_pure
  | cons m rest ih =>
    intro index inside
    have width : EphemeralMapping.codec.size = 40 := rfl
    rw [List.length_cons, MapBlock.mappingOffset, width] at inside
    refine fits_bind ?_ (ih (index + 1) ?_)
    · intro b size_eq
      have size_new := m.size_encode e
      have room : MapBlock.mappingOffset index + 40 ≤ b.size := by
        rw [MapBlock.mappingOffset, width]
        omega
      refine ⟨b.overwrite (MapBlock.mappingOffset index) (m.encode e), ?_, ?_⟩
      · exact if_neg (Nat.not_lt.mpr room)
      · rw [Bytes.size_overwrite (by omega), size_eq]
    · rw [MapBlock.mappingOffset, width]
      omega

theorem fits_mapBlock (e : ByteOrder) (block : MapBlock) (roomy : MapBlock.frontSize ≤ size)
    (addressable : size < Bytes.addressLimit)
    (few : block.mappings.length ≤ MapBlock.capacity size)
    (countable : block.mappings.length < UInt32.size) : (block.encode e).Fits size := by
  have front_size : MapBlock.frontCodec.size = MapBlock.frontSize := rfl
  have inside := MapBlock.mappingOffset_le roomy few
  rw [← Nat.zero_add block.mappings.length] at inside
  have writes : (do
      MapBlock.frontCodec.write e 0
        (block.header, block.flags, block.mappings.length.toUInt32)
      MapBlock.writeMappings e 0 block.mappings : Encoder Unit).Fits size :=
    fits_bind (fits_codec MapBlock.frontCodec_lawful e _ (by omega) addressable)
      (fits_writeMappings e block.mappings 0 inside)
  intro b size_eq
  rw [MapBlock.encode_on (by rw [size_eq]; exact few) countable]
  exact writes b size_eq

theorem fits_writeChecksum (e : ByteOrder) (roomy : ObjectHeader.size ≤ size)
    (addressable : size < Bytes.addressLimit) : (Object.writeChecksum e).Fits size := by
  intro b size_eq
  obtain ⟨sum, b', run, is_sealed⟩ := Object.writeChecksum_seals e (b := b) (by omega) (by omega)
  exact ⟨b', run, is_sealed.size_eq.trans size_eq⟩

end Fits

namespace ObjectDraft

variable {e : ByteOrder} {size : Nat} {b' : Bytes}

theorem sealedBlock_eq_ok {w : Encoder Unit} (made : sealedBlock e size w = .ok b') :
    ∃ b, w.on (Bytes.zeros size) = (.ok (), b) ∧
      (Object.writeChecksum e).on b = (.ok (), b') := by
  have run : (w >>= fun _ => Object.writeChecksum e).on (Bytes.zeros size) = (.ok (), b') :=
    apply_eq_ok.mp (mapError_eq_ok.mp made)
  exact Encoder.on_bind_eq_ok run

/-- A block that starts with a record behind an object header, the rest of which is zero. -/
structure Holds (e : ByteOrder) (size : Nat) (c : Codec α) (h : ObjectHeader) (v : α)
    (b : Bytes) : Prop where
  size_eq : b.size = size
  verified : Object.verifies e b = true
  read : ∃ sum, (ObjectHeader.codec.seq c).read e b 0 = .ok ({ h with checksum := sum }, v)
  zero_behind : ∀ i, ObjectHeader.size + c.size ≤ i → b.getPadded i = 0

theorem sealedBlock_holds {c : Codec α} {f : α → α} (lawful : Lawful c f) {h : ObjectHeader}
    {v : α} (fits : ObjectHeader.size + c.size ≤ size) (addressable : size < Bytes.addressLimit)
    (made : sealedBlock e size ((ObjectHeader.codec.seq c).write e 0 (h, v)) = .ok b') :
    Holds e size c h (f v) b' := by
  have zeros_size := Bytes.size_zeros size
  have header_size : (ObjectHeader.codec.seq c).size = ObjectHeader.size + c.size := rfl
  obtain ⟨b, written, read⟩ := (ObjectHeader.codec_lawful.seq lawful).write_read e 0 (h, v)
    (b := Bytes.zeros size) (by omega) (by omega)
  obtain ⟨b₁, first, last⟩ := sealedBlock_eq_ok made
  rw [written.done] at first
  cases first
  have roomy : ObjectHeader.size ≤ b.size := by
    rw [written.size_eq]
    omega
  obtain ⟨sum, b₂, sealing, is_sealed⟩ := Object.writeChecksum_seals e roomy
    (by rw [written.size_eq]; omega)
  rw [last] at sealing
  cases sealing
  have record := is_sealed.read_record lawful
    (by rw [written.size_eq, zeros_size]; exact fits) read
  refine ⟨?_, is_sealed.verified, ⟨sum, record⟩, fun i behind => ?_⟩
  · rw [is_sealed.size_eq, written.size_eq, zeros_size]
  · have small : Object.checksumSize = 8 := rfl
    have large : ObjectHeader.size = 32 := rfl
    rw [is_sealed.behind i (by omega), written.outside i (by omega), Bytes.getPadded_zeros]

theorem sealedRecord_holds {c : Codec α} {f : α → α} (lawful : Lawful c f)
    {view : ObjectHeader × α → β} {fields : β → ObjectHeader × α} {x : β}
    (fits : ObjectHeader.size + c.size ≤ size) (addressable : size < Bytes.addressLimit)
    (made : sealedBlock e size (((ObjectHeader.codec.seq c).map view fields).write e 0 x)
      = .ok b') : Holds e size c (fields x).1 (f (fields x).2) b' :=
  sealedBlock_holds lawful fits addressable made

theorem sealedBlock_succeeds {w : Encoder Unit} (writes : w.Fits size)
    (roomy : ObjectHeader.size ≤ size) (addressable : size < Bytes.addressLimit) :
    ∃ b, sealedBlock e size w = .ok b := by
  have both : (do w; Object.writeChecksum e : Encoder Unit).Fits size :=
    fits_bind writes (fits_writeChecksum e roomy addressable)
  obtain ⟨b, run, -⟩ := both (Bytes.zeros size) (Bytes.size_zeros size)
  exact ⟨b, mapError_eq_ok.mpr (apply_eq_ok.mpr run)⟩

theorem Holds.header {c : Codec α} {h : ObjectHeader} {v : α} {b : Bytes}
    (holds : Holds e size c h v b) (roomy : ObjectHeader.size ≤ size) :
    ∃ sum, ObjectHeader.parse e b = .ok { h with checksum := sum } := by
  obtain ⟨sum, read⟩ := holds.read
  exact ⟨sum, ObjectHeader.parse_of_front read (by rw [holds.size_eq]; exact roomy)⟩

theorem Holds.decode {c : Codec α} {h : ObjectHeader} {v : α} {b : Bytes}
    (holds : Holds e size c h v b) (fits : ObjectHeader.size + c.size ≤ size)
    {view : ObjectHeader × α → β} {fields : β → ObjectHeader × α} :
    ∃ sum, ((ObjectHeader.codec.seq c).map view fields).decode e b
      = .ok (view ({ h with checksum := sum }, v)) := by
  obtain ⟨sum, read⟩ := holds.read
  have size_eq := holds.size_eq
  have record : ((ObjectHeader.codec.seq c).map view fields).size
      = ObjectHeader.size + c.size := rfl
  refine ⟨sum, ?_⟩
  rw [Codec.decode, Bytes.require, if_neg (by omega), ok_bind]
  exact map_eq_ok.mpr ⟨_, read, rfl⟩

theorem fixedSlice_eq_ok {b : Bytes} {offset n : Nat} {v : FixedBytes n}
    (cut : Bytes.fixedSlice b offset n = .ok v) : v.val = b.extract offset (offset + n) := by
  unfold Bytes.fixedSlice at cut
  split at cut
  · cases cut
  · cases cut
    rfl

theorem raw_holds {h : ObjectHeader} {payload : Bytes} (addressable : size < Bytes.addressLimit)
    (made : raw e size h payload = .ok b') :
    Holds e size (Codec.raw payload.size) h ⟨payload, rfl⟩ b' := by
  unfold raw at made
  split at made
  · cases made
  · rename_i fits
    exact sealedBlock_holds (raw_laid payload.size).lawful (Nat.le_of_not_lt fits) addressable made

theorem raw_payload {h : ObjectHeader} {payload : Bytes} (addressable : size < Bytes.addressLimit)
    (made : raw e size h payload = .ok b') :
    b'.drop ObjectHeader.size
      = payload ++ Bytes.zeros (size - ObjectHeader.size - payload.size) := by
  have holds := raw_holds addressable made
  have size_eq := holds.size_eq
  have fits : ObjectHeader.size + payload.size ≤ size := by
    unfold raw at made
    split at made
    · cases made
    · rename_i fits
      exact Nat.le_of_not_lt fits
  obtain ⟨sum, read⟩ := holds.read
  obtain ⟨header, -, rest⟩ := bind_eq_ok.mp read
  obtain ⟨stored, stored_eq, same⟩ := bind_eq_ok.mp rest
  have stored_is : stored.val = payload := congrArg (fun p => p.2.val) (Except.ok.inj same)
  have sliced : b'.extract ObjectHeader.size (ObjectHeader.size + payload.size) = payload := by
    have cut := fixedSlice_eq_ok stored_eq
    have place : 0 + ObjectHeader.codec.size = ObjectHeader.size := rfl
    rw [stored_is, place] at cut
    exact cut.symm
  apply Bytes.ext_getPadded
  · rw [Bytes.drop, Bytes.size_extract_of_le (Nat.le_refl _), ByteArray.size_append,
      Bytes.size_zeros]
    omega
  · intro i lt
    rw [Bytes.drop, Bytes.size_extract_of_le (Nat.le_refl _)] at lt
    rw [Bytes.drop, Bytes.getPadded_extract (by omega), Bytes.getPadded_append]
    split
    · rename_i inside
      conv => rhs; rw [← sliced]
      rw [Bytes.getPadded_extract (by omega)]
    · rename_i behind
      have width : (Codec.raw payload.size).size = payload.size := rfl
      rw [holds.zero_behind _ (by omega), Bytes.getPadded_zeros]

theorem raw_succeeds {h : ObjectHeader} {payload : Bytes} (addressable : size < Bytes.addressLimit)
    (fits : ObjectHeader.size + payload.size ≤ size) : ∃ b, raw e size h payload = .ok b := by
  have header_size : ObjectHeader.codec.size = ObjectHeader.size := rfl
  have payload_size : (Codec.raw payload.size).size = payload.size := rfl
  rw [raw, if_neg (Nat.not_lt.mpr fits)]
  refine sealedBlock_succeeds (fits_bind ?_ ?_) (by omega) addressable
  · exact fits_codec ObjectHeader.codec_lawful e h (by omega) addressable
  · exact fits_codec (raw_laid payload.size).lawful e ⟨payload, rfl⟩ (by omega) addressable

theorem size_mapBlock {xid : TransactionId} {index : Nat} {address : BlockAddress} {last : Bool}
    {mappings : List EphemeralMapping}
    (made : mapBlock e size xid index address last mappings = .ok b') : b'.size = size := by
  obtain ⟨-, made⟩ := checked_eq_ok.mp made
  obtain ⟨bytes, encoded, made⟩ := bind_eq_ok.mp made
  have encoded := apply_eq_ok.mp (mapError_eq_ok.mp (mapError_eq_ok.mp encoded))
  have summed := apply_eq_ok.mp (mapError_eq_ok.mp made)
  rw [(keepsSize_writeChecksum e).of_on summed, (keepsSize_mapBlock e _).of_on encoded,
    Bytes.size_zeros]

theorem mapBlock_succeeds {xid : TransactionId} {index : Nat} {address : BlockAddress}
    {last : Bool} {mappings : List EphemeralMapping} (roomy : minimumBlockSize.toNat ≤ size)
    (addressable : size < Bytes.addressLimit) (few : mappings.length ≤ MapBlock.capacity size)
    (countable : mappings.length < UInt32.size) :
    ∃ b, mapBlock e size xid index address last mappings = .ok b := by
  have smallest : minimumBlockSize.toNat = 4096 := rfl
  have record_size : ObjectHeader.size = 32 := rfl
  have front : MapBlock.frontSize = 40 := rfl
  let block : MapBlock := ⟨header address xid (TypeWord.checkpointMap ||| TypeWord.physicalFlag) 0,
    if last then MapBlock.lastFlag else 0, mappings⟩
  obtain ⟨b, encoded, kept⟩ := fits_mapBlock e block (by omega) addressable few countable _
    (Bytes.size_zeros size)
  obtain ⟨b', summed, -⟩ := fits_writeChecksum e (by omega) addressable b kept
  refine ⟨b', ?_⟩
  rw [mapBlock, if_neg (Nat.not_lt.mpr few)]
  refine bind_eq_ok.mpr ⟨b, ?_, ?_⟩
  · exact mapError_eq_ok.mpr (mapError_eq_ok.mpr (apply_eq_ok.mpr encoded))
  · exact mapError_eq_ok.mpr (apply_eq_ok.mpr summed)

theorem mapDescriptor_succeeds {address tree : BlockAddress} {xid : TransactionId}
    {snapshots : Option SnapshotTree} (roomy : minimumBlockSize.toNat ≤ size)
    (addressable : size < Bytes.addressLimit) :
    ∃ b, mapDescriptor e size address xid tree snapshots = .ok b := by
  have smallest : minimumBlockSize.toNat = 4096 := rfl
  have header_size : ObjectHeader.size = 32 := rfl
  have codec_size : MapDescriptor.codec.size = 88 := rfl
  exact sealedBlock_succeeds (fits_codec MapDescriptor.codec_lawful e _ (by omega) addressable)
    (by omega) addressable

/-- The descriptor of a built object map is that of a map at its own address. -/
theorem mapDescriptor_reads {address tree : BlockAddress} {xid : TransactionId}
    {snapshots : Option SnapshotTree} (roomy : minimumBlockSize.toNat ≤ size)
    (addressable : size < Bytes.addressLimit)
    (made : mapDescriptor e size address xid tree snapshots = .ok b') :
    b'.size = size ∧ Object.verifies e b' = true ∧
      (∃ h, ObjectHeader.parse e b' = .ok h ∧ h.oid = address) ∧
      ∃ d, MapDescriptor.parse e b' = .ok d ∧ d.treeOid = tree ∧
        (d.snapshotTreeOid = (snapshots.getD ⟨0, 0, 0⟩).root ∧
          d.snapshotTreeStorage? = some .physical) ∧
        ObjectMap.ofDescriptor address e d = .ok ⟨address, e, d, Tree.standardDepth⟩ := by
  have smallest : minimumBlockSize.toNat = 4096 := rfl
  have header_size : ObjectHeader.size = 32 := rfl
  have lawful := (word32_laid.seq <| word32_laid.seq <| word32_laid.seq <| word32_laid.seq <|
    word64_laid.seq <| word64_laid.seq <| word64_laid.seq <| word64_laid.seq word64_laid).lawful
  have holds := sealedRecord_holds lawful (by change 88 ≤ size; omega) addressable made
  obtain ⟨_, header_read⟩ := holds.header (by omega)
  obtain ⟨sum, decoded⟩ := holds.decode (by change 88 ≤ size; omega)
  refine ⟨holds.size_eq, holds.verified, ⟨_, header_read, rfl⟩, ?_⟩
  have code : TypeWord.code (TypeWord.objectMap ||| TypeWord.physicalFlag)
      = TypeWord.objectMap := by
    decide
  have storage : TypeWord.storage? (TypeWord.tree ||| TypeWord.physicalFlag) = some .physical := by
    decide
  have expected : ObjectHeader.expectCode
      ⟨sum, address, xid, TypeWord.objectMap ||| TypeWord.physicalFlag, 0⟩ TypeWord.objectMap
      = .ok () := if_pos code
  refine ⟨_, bind_eq_ok.mpr ⟨_, decoded, bind_eq_ok.mpr ⟨(), expected, rfl⟩⟩, rfl,
    ⟨rfl, storage⟩, ?_⟩
  refine bind_eq_ok.mpr ⟨(), congrArg (decodedAt (m := Except StoreError) address) expected, ?_⟩
  exact checked_eq_ok.mpr ⟨fun other => other rfl,
    checked_eq_ok.mpr ⟨fun other => other storage, rfl⟩⟩

theorem Holds.first {c : Codec α} {d : Codec β} {h : ObjectHeader} {v : α × β} {b : Bytes}
    (holds : Holds e size (c.seq d) h v b) : c.read e b ObjectHeader.size = .ok v.1 := by
  obtain ⟨sum, read⟩ := holds.read
  obtain ⟨header, -, rest⟩ := bind_eq_ok.mp read
  obtain ⟨both, read, same⟩ := bind_eq_ok.mp rest
  obtain ⟨x, first, rest⟩ := bind_eq_ok.mp read
  obtain ⟨y, -, same'⟩ := bind_eq_ok.mp rest
  have both_eq : (x, y) = both := Except.ok.inj same'
  have v_eq : both = v := congrArg Prod.snd (Except.ok.inj same)
  rw [← v_eq, ← both_eq]
  exact first

/-- The order of a superblock is told by its magic number. -/
theorem detectOrder_of_bytes {b : Bytes} (fits : Superblock.magicOffset + 4 ≤ b.size)
    (stored : ((List.range 4).map fun i => b.getPadded (Superblock.magicOffset + i))
      = e.bytesOf .four containerMagic.toUInt64) : Superblock.detectOrder b = .ok e := by
  have sliced : Bytes.slice b Superblock.magicOffset 4
      = .ok (b.extract Superblock.magicOffset (Superblock.magicOffset + 4)) := by
    rw [Bytes.slice, Bytes.rangeError?_of_fits fits (by decide)]
  rw [Superblock.detectOrder, sliced, ok_bind]
  dsimp only
  rw [Bytes.toList_extract fits, stored]
  cases e with
  | little => rfl
  | big => rfl

theorem detectOrder_of_magic {b : Bytes} (fits : Superblock.magicOffset + 4 ≤ b.size)
    (addressable : b.size < Bytes.addressLimit)
    (magic : e.read32 b Superblock.magicOffset = .ok containerMagic) :
    Superblock.detectOrder b = .ok e := by
  have word := ByteOrder.wordOf_of_read32 fits addressable magic
  apply detectOrder_of_bytes fits
  exact ByteOrder.eq_bytesOf (w := .four) (by simp [Width.bytes]) (by decide) word

theorem superblock_succeeds {s : Superblock} (roomy : minimumBlockSize.toNat ≤ size)
    (addressable : size < Bytes.addressLimit) (few : s.volumes.length ≤ Superblock.volumeSlots) :
    ∃ b, superblock e size s = .ok b := by
  have smallest : minimumBlockSize.toNat = 4096 := rfl
  have header_size : ObjectHeader.size = 32 := rfl
  have inside : 0 + Superblock.codec.size ≤ size := by
    rw [Superblock.size_codec]
    omega
  have step : superblock e size s = sealedBlock e size (do
      if Superblock.volumeSlots < s.volumes.length then
        throw (.invalidField "nx_fs_oid" "exceeds NX_MAX_FILE_SYSTEMS")
      Superblock.codec.write e 0 (containerMagic, s)) := rfl
  rw [step, if_neg (Nat.not_lt.mpr few)]
  exact sealedBlock_succeeds (fits_codec Superblock.codec_lawful e _ inside addressable)
    (by omega) addressable

/-- A built superblock is one in the order in which it was written, with all its slots. -/
theorem superblock_reads {s : Superblock} (roomy : minimumBlockSize.toNat ≤ size)
    (addressable : size < Bytes.addressLimit)
    (code : s.header.typeCode = TypeWord.containerSuperblock)
    (legal : s.blockSize ∈ BlockSize.legal)
    (slots : s.maxVolumes.toNat ≤ Superblock.volumeSlots)
    (made : superblock e size s = .ok b') :
    b'.size = size ∧ Object.verifies e b' = true ∧ Superblock.detectOrder b' = .ok e ∧
      ∃ sum, Superblock.parse e b'
        = .ok { s.full with header := { s.header with checksum := sum } } := by
  have smallest : minimumBlockSize.toNat = 4096 := rfl
  have header_size : ObjectHeader.size = 32 := rfl
  have lawful := (word32_laid.seq <| word32_laid.seq <| word64_laid.seq <| word64_laid.seq <|
    word64_laid.seq <| word64_laid.seq <| (raw_laid 16).seq <| word64_laid.seq <|
    word64_laid.seq <| word32_laid.seq <| word32_laid.seq <| word64_laid.seq <|
    word64_laid.seq <| word32_laid.seq <| word32_laid.seq <| word32_laid.seq <|
    word32_laid.seq <| word32_laid.seq <| word32_laid.seq <| word64_laid.seq <|
    word64_laid.seq <| word64_laid.seq <| word32_laid.seq <|
    word32_laid.seq (word64_laid.table 0 Superblock.volumeSlots)).lawful
  have written : sealedBlock e size (Superblock.codec.write e 0 (containerMagic, s)) = .ok b' := by
    rw [superblock, Superblock.encode] at made
    split at made
    · obtain ⟨_, thrown, -⟩ := sealedBlock_eq_ok made
      cases thrown
    · exact made
  have inside : Superblock.codec.size ≤ size := by
    rw [Superblock.size_codec]
    omega
  have record : ObjectHeader.codec.size = ObjectHeader.size := rfl
  simp only [Superblock.codec, Codec.map] at inside
  rw [size_seq, record] at inside
  have holds := sealedRecord_holds lawful inside addressable written
  obtain ⟨sum, decoded⟩ := holds.decode inside
  refine ⟨holds.size_eq, holds.verified, ?_, sum, ?_⟩
  · have size_eq := holds.size_eq
    have place : Superblock.magicOffset = ObjectHeader.size := rfl
    exact detectOrder_of_magic (by omega) (by omega) holds.first
  · exact Superblock.parse_eq_ok.mpr ⟨decoded, code, legal, slots⟩

end ObjectDraft

end ObjectStore
