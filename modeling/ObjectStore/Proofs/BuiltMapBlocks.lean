import ObjectStore.Proofs.BuiltObjects

/-
Map blocks that have been built. Each verifies and reads as the mappings that it was built from,
in their order, flagged as it was meant to be.
-/
namespace ObjectStore

open Codec

variable {e : ByteOrder}

/-- A mapping is written as a whole. -/
theorem EphemeralMapping.writes (m : EphemeralMapping) {offset : Nat} {b : Bytes}
    (fits : offset + 40 ≤ b.size) :
    (m.write e offset).WritesWithin offset 40 b (b.overwrite offset (m.encode e)) := by
  have size_new := m.size_encode e
  have fits' : offset + (m.encode e).size ≤ b.size := by omega
  refine ⟨if_neg (Nat.not_lt.mpr fits), Bytes.size_overwrite fits', fun i outside => ?_⟩
  rw [Bytes.getPadded_overwrite fits', if_neg (by omega)]

namespace MapBlock

/-- Mappings that fit are laid one behind the other, and nothing else is touched. -/
theorem writeMappings_lays (mappings : List EphemeralMapping) :
    ∀ (index : Nat) {b : Bytes}, mappingOffset (index + mappings.length) ≤ b.size → ∃ b',
      (writeMappings e index mappings).WritesWithin (mappingOffset index)
        (mappings.length * 40) b b' ∧
      ∀ k (h : k < mappings.length), ∀ i < 40,
        b'.getPadded (mappingOffset (index + k) + i) = (mappings[k].encode e).getPadded i := by
  induction mappings with
  | nil =>
    exact fun _ b _ => ⟨b, ⟨rfl, rfl, fun _ _ => rfl⟩, fun k h => absurd h (Nat.not_lt_zero k)⟩
  | cons m rest ih =>
    intro index b inside
    rw [List.length_cons, Nat.add_comm rest.length, ← Nat.add_assoc] at inside
    have behind : mappingOffset (index + 1) ≤ mappingOffset (index + 1 + rest.length) := by
      rw [mappingOffset, mappingOffset]
      exact Nat.add_le_add_left (Nat.mul_le_mul_right _ (Nat.le_add_right _ _)) _
    have next := mappingOffset_succ index
    have size_new := m.size_encode e
    have room : mappingOffset index + 40 ≤ b.size := by omega
    have first := m.writes (e := e) room
    have size_first := first.size_eq
    obtain ⟨b', others, laid⟩ := ih (index + 1) (b := _) (by rw [size_first]; exact inside)
    refine ⟨b', ⟨(Encoder.on_bind_ok _ first.done).trans others.done, ?_, fun i outside => ?_⟩, ?_⟩
    · rw [others.size_eq, first.size_eq]
    · rw [List.length_cons] at outside
      rw [others.outside i (by omega), first.outside i (by omega)]
    · intro k h i lt
      cases k with
      | zero =>
        rw [Nat.add_zero, List.getElem_cons_zero, others.outside _ (by omega),
          Bytes.getPadded_overwrite (by omega), if_pos (by omega), Nat.add_sub_cancel_left]
      | succ k =>
        have there := laid k (Nat.lt_of_succ_lt_succ h) i lt
        rwa [Nat.add_assoc, Nat.add_comm 1] at there

theorem writeMappings_writes (mappings : List EphemeralMapping) (index : Nat) {b : Bytes}
    (inside : mappingOffset (index + mappings.length) ≤ b.size)
    (addressable : b.size < Bytes.addressLimit) : ∃ b',
      (writeMappings e index mappings).WritesWithin (mappingOffset index)
        (mappings.length * 40) b b' ∧
      ∀ i (h : i < mappings.length),
        EphemeralMapping.codec.read e b' (mappingOffset (index + i)) = .ok mappings[i] := by
  obtain ⟨b', written, laid⟩ := writeMappings_lays (e := e) mappings index inside
  refine ⟨b', written, fun i h => ?_⟩
  have size_eq := written.size_eq
  have width : EphemeralMapping.codec.size = 40 := rfl
  have before : mappingOffset (index + i) + 40 ≤ mappingOffset (index + mappings.length) := by
    rw [mappingOffset, mappingOffset, width]
    omega
  exact EphemeralMapping.codec_lawful.read_at (by decide) (by omega) (by omega) (laid i h)

/-- Only mappings that fit the block, and can be counted, are encoded. -/
theorem fits_of_encode {block : MapBlock} {b b' : Bytes}
    (encoded : (block.encode e).on b = (.ok (), b')) :
    block.mappings.length ≤ capacity b.size ∧ block.mappings.length < UInt32.size := by
  rw [encode_steps] at encoded
  by_cases exceeds : capacity b.size < block.mappings.length
  · rw [if_pos exceeds] at encoded
    cases encoded
  rw [if_neg exceeds] at encoded
  refine ⟨Nat.le_of_not_lt exceeds, ?_⟩
  by_cases countable : block.mappings.length < UInt32.size
  · exact countable
  · rw [if_neg countable] at encoded
    obtain ⟨_, -, encoded⟩ := Encoder.on_bind_eq_ok encoded
    obtain ⟨_, -, encoded⟩ := Encoder.on_bind_eq_ok encoded
    cases encoded

/-- What a block that was encoded holds, before its checksum is stored. -/
theorem encode_eq_ok {block : MapBlock} {b b' : Bytes} (addressable : b.size < Bytes.addressLimit)
    (roomy : frontSize ≤ b.size) (encoded : (block.encode e).on b = (.ok (), b')) :
    block.mappings.length ≤ capacity b.size ∧ block.mappings.length < UInt32.size ∧
      b'.size = b.size ∧
      frontCodec.read e b' 0 = .ok (block.header, block.flags, block.mappings.length.toUInt32) ∧
      ∀ i (h : i < block.mappings.length),
        EphemeralMapping.codec.read e b' (mappingOffset i) = .ok block.mappings[i] := by
  obtain ⟨few, countable⟩ := fits_of_encode encoded
  have front_size : frontCodec.size = 40 := rfl
  have offset_zero : mappingOffset 0 = 40 := rfl
  have size_front : frontSize = 40 := rfl
  have inside := mappingOffset_le roomy few
  rw [encode_on few countable] at encoded
  obtain ⟨b₁, first, front_read⟩ := frontCodec_lawful.write_read e 0
    (block.header, block.flags, block.mappings.length.toUInt32) (b := b) (by omega) addressable
  have size₁ := first.size_eq
  rw [Encoder.on_bind_ok _ first.done] at encoded
  obtain ⟨b₂, others, each⟩ := writeMappings_writes (e := e) block.mappings 0 (b := b₁)
    (by rw [Nat.zero_add, size₁]; exact inside) (by omega)
  have size₂ := others.size_eq
  rw [others.done] at encoded
  cases encoded
  refine ⟨few, countable, size₂.trans size₁, ?_, fun i h => ?_⟩
  · exact (frontCodec_lawful.same_bytes ⟨by omega, by omega, by omega, by omega,
      fun i lt => others.outside _ (by omega)⟩).trans front_read
  · have there := each i h
    rwa [Nat.zero_add] at there

/-- A block is read mapping by mapping behind its front. -/
theorem parse_of_reads {b : Bytes} {h : ObjectHeader} {flags : UInt32}
    {mappings : List EphemeralMapping} (roomy : frontSize ≤ b.size)
    (front : frontCodec.read e b 0 = .ok (h, flags, mappings.length.toUInt32))
    (countable : mappings.length < UInt32.size) (few : mappings.length ≤ capacity b.size)
    (code : h.typeCode = TypeWord.checkpointMap)
    (each : ∀ i (lt : i < mappings.length),
      EphemeralMapping.codec.read e b (mappingOffset i) = .ok mappings[i]) :
    MapBlock.parse e b = .ok ⟨h, flags, mappings⟩ := by
  have counted : mappings.length.toUInt32.toNat = mappings.length := Nat.mod_eq_of_lt countable
  have decoded : frontCodec.decode e b = .ok (h, flags, mappings.length.toUInt32) := by
    have front_size : frontCodec.size = frontSize := rfl
    rw [Codec.decode, Bytes.require, if_neg (by omega), ok_bind, front]
  obtain ⟨read, all⟩ := mapM_succeeds (f := fun i => EphemeralMapping.codec.read e b
      (mappingOffset i)) (l := List.range mappings.length)
    fun i mem => ⟨_, each i (List.mem_range.mp mem)⟩
  obtain ⟨length_eq, found⟩ := mapM_eq_ok all
  rw [List.length_range] at length_eq
  have same : read = mappings := by
    apply List.ext_getElem length_eq
    intro i left right
    have here := found i (by rwa [List.length_range]) left
    rw [List.getElem_range, each i right] at here
    exact (Except.ok.inj here).symm
  rw [MapBlock.parse, decoded, ok_bind]
  dsimp only
  rw [ObjectHeader.expectCode, if_pos code, ok_bind, counted, if_neg (Nat.not_lt.mpr few), all,
    ok_bind, same]
  rfl

end MapBlock

namespace ObjectDraft

/-- A built map block is flagged as the last if it was meant to be. -/
theorem mapBlock_reads {size : Nat} {xid : TransactionId} {index : Nat} {address : BlockAddress}
    {last : Bool} {mappings : List EphemeralMapping} {b : Bytes}
    (addressable : size < Bytes.addressLimit) (roomy : MapBlock.frontSize ≤ size)
    (made : mapBlock e size xid index address last mappings = .ok b) :
    b.size = size ∧ Object.verifies e b = true ∧ ∃ block, MapBlock.parse e b = .ok block ∧
      block.header.oid = address ∧ block.header.xid = xid ∧ block.isLast = last ∧
      block.mappings = mappings ∧ ObjectHeader.parse e b = .ok block.header := by
  have front_size : MapBlock.frontSize = 40 := rfl
  have header_size : ObjectHeader.size = 32 := rfl
  have zeros_size := Bytes.size_zeros size
  obtain ⟨-, made⟩ := checked_eq_ok.mp made
  obtain ⟨b₁, encoded, made⟩ := bind_eq_ok.mp made
  have encoded := apply_eq_ok.mp (mapError_eq_ok.mp (mapError_eq_ok.mp encoded))
  have summed := apply_eq_ok.mp (mapError_eq_ok.mp made)
  obtain ⟨few, countable, size₁, front, each⟩ :=
    MapBlock.encode_eq_ok (by omega) (by omega) encoded
  rw [zeros_size] at few size₁
  dsimp only at few countable front each
  obtain ⟨sum, b₂, sealing, is_sealed⟩ := Object.writeChecksum_seals e (b := b₁)
    (by omega) (by omega)
  rw [summed] at sealing
  cases sealing
  have size_eq := is_sealed.size_eq
  have front_sealed := is_sealed.read_record (word32_laid.seq word32_laid).lawful
    (by change 40 ≤ _; omega) front
  have code : TypeWord.code (TypeWord.checkpointMap ||| TypeWord.physicalFlag)
      = TypeWord.checkpointMap := by
    decide
  have flagged : ∀ last : Bool,
      hasFlag (if last then MapBlock.lastFlag else 0) MapBlock.lastFlag = last := by
    decide
  have each_sealed : ∀ i (lt : i < mappings.length),
      EphemeralMapping.codec.read e b (MapBlock.mappingOffset i) = .ok mappings[i] := fun i lt => by
    have width : EphemeralMapping.codec.size = 40 := rfl
    have offset_eq : MapBlock.mappingOffset i = 40 + i * 40 := rfl
    have most := Nat.mul_le_of_le_div _ _ _ few
    rw [width] at most
    rw [is_sealed.read_behind EphemeralMapping.codec_lawful _ (by change 8 ≤ _; omega) (by omega)]
    exact each i lt
  have parsed := MapBlock.parse_of_reads (by omega) front_sealed countable
    (by rwa [size_eq, size₁]) code each_sealed
  refine ⟨by omega, is_sealed.verified, _, parsed, rfl, rfl, ?_, rfl, ?_⟩
  · exact flagged last
  · exact ObjectHeader.parse_of_front front_sealed (by omega)

end ObjectDraft

end ObjectStore
