import ObjectStore.Proofs.BuiltMapBlocks
import ObjectStore.Proofs.FixedRecords

/-
Map blocks and their bytes. A block is read as its front and as many mappings as the front counts,
if so many fit; what it is written as is told from it byte by byte, the padding of the mappings
apart.
-/
namespace ObjectStore.MapBlock

open Codec

variable {e : ByteOrder} {b b' : Bytes} {m : MapBlock}

def front (m : MapBlock) : ObjectHeader × UInt32 × UInt32 :=
  (m.header, m.flags, m.mappings.length.toUInt32)

structure LiesIn (m : MapBlock) (e : ByteOrder) (b : Bytes) : Prop where
  fits : 40 + 40 * m.mappings.length ≤ b.size
  countable : m.mappings.length < UInt32.size
  front : ∀ p ∈ frontParts, p.Holds e b 0 m.front
  each : ∀ k (h : k < m.mappings.length),
    ∀ p ∈ EphemeralMapping.parts, p.Holds e b (mappingOffset k) m.mappings[k]

theorem mappingOffset_eq (k : Nat) : mappingOffset k = 40 + 40 * k := by
  have width : EphemeralMapping.codec.size = 40 := rfl
  have front_size : frontSize = 40 := rfl
  rw [mappingOffset, width, front_size, Nat.mul_comm]

/-- No block with mappings that can be counted leaves the address space. -/
theorem lt_addressLimit {n : Nat} (countable : n < UInt32.size) :
    40 + 40 * n < Bytes.addressLimit := by
  have limit : Bytes.addressLimit = 18446744073709551616 := rfl
  have words : UInt32.size = 4294967296 := rfl
  omega

theorem le_capacity_iff {n size : Nat} (roomy : 40 ≤ size) :
    n ≤ capacity size ↔ 40 + 40 * n ≤ size := by
  have width : EphemeralMapping.codec.size = 40 := rfl
  have front_size : frontSize = 40 := rfl
  rw [capacity, width, front_size, Nat.le_div_iff_mul_le (by decide)]
  omega

theorem LiesIn.congr (lies : m.LiesIn e b) (fits : 40 + 40 * m.mappings.length ≤ b'.size)
    (same : ∀ i < 40 + 40 * m.mappings.length, b.getPadded i = b'.getPadded i) :
    m.LiesIn e b' where
  fits := fits
  countable := lies.countable
  front p mem := by
    refine Part.holds_congr (fun i covers => ?_) (lies.front p mem)
    have front_size : frontCodec.size = 40 := rfl
    have inside := frontCodec_exact.tiles.inside mem covers
    rw [Nat.zero_add]
    exact same i (by omega)
  each k h p mem := by
    refine Part.holds_congr (fun i covers => ?_) (lies.each k h p mem)
    have width : EphemeralMapping.codec.size = 40 := rfl
    have inside := EphemeralMapping.codec_exact.tiles.inside mem covers
    exact same _ (by rw [mappingOffset_eq]; omega)

theorem LiesIn.read_front (lies : m.LiesIn e b) : frontCodec.read e b 0 = .ok m.front := by
  have front_size : frontCodec.size = 40 := rfl
  have fits := lies.fits
  exact (frontCodec_exact.read_iff (by omega) (by decide)).mpr lies.front

theorem LiesIn.read_mapping (lies : m.LiesIn e b) {k : Nat} (h : k < m.mappings.length) :
    EphemeralMapping.codec.read e b (mappingOffset k) = .ok m.mappings[k] := by
  have width : EphemeralMapping.codec.size = 40 := rfl
  have fits := lies.fits
  have addressable := lt_addressLimit lies.countable
  have place := mappingOffset_eq k
  exact (EphemeralMapping.codec_exact.read_iff (by omega) (by omega)).mpr (lies.each k h)

/-- What has been read from a buffer lies there. -/
theorem liesIn_of_reads {header : ObjectHeader} {flags count : UInt32}
    {mappings : List EphemeralMapping} (fits : 40 + 40 * count.toNat ≤ b.size)
    (front : frontCodec.read e b 0 = .ok (header, flags, count))
    (each : (List.range count.toNat).mapM
      (fun i => EphemeralMapping.codec.read e b (mappingOffset i)) = .ok mappings) :
    LiesIn ⟨header, flags, mappings⟩ e b := by
  have front_size : frontCodec.size = 40 := rfl
  have width : EphemeralMapping.codec.size = 40 := rfl
  have countable : count.toNat < UInt32.size := count.toNat_lt
  have addressable := lt_addressLimit countable
  obtain ⟨length_eq, read⟩ := mapM_eq_ok each
  rw [List.length_range] at length_eq
  constructor
  · rw [length_eq]
    exact fits
  · rw [length_eq]
    exact countable
  · have counted : mappings.length.toUInt32 = count := by
      rw [length_eq]
      exact UInt32.ofNat_toNat
    rw [MapBlock.front, counted]
    exact (frontCodec_exact.read_iff (by omega) (by omega)).mp front
  · intro k h
    have lt : k < mappings.length := h
    have place := mappingOffset_eq k
    have here := read k (by rw [List.length_range]; omega) h
    rw [List.getElem_range] at here
    exact (EphemeralMapping.codec_exact.read_iff (by omega) (by omega)).mp here

theorem parse_eq_ok : parse e b = .ok m ↔
    m.LiesIn e b ∧ m.header.typeCode = TypeWord.checkpointMap := by
  constructor
  · intro parsed
    obtain ⟨⟨header, flags, count⟩, decoded, checked⟩ := bind_eq_ok.mp parsed
    obtain ⟨_, typed, checked⟩ := bind_eq_ok.mp checked
    obtain ⟨few, checked⟩ := checked_eq_ok.mp checked
    obtain ⟨mappings, each, same⟩ := bind_eq_ok.mp checked
    obtain ⟨_, room, front⟩ := bind_eq_ok.mp decoded
    have roomy : 40 ≤ b.size := Bytes.require_eq_ok.mp room
    cases same
    have fits := (le_capacity_iff roomy).mp (Nat.le_of_not_lt few)
    exact ⟨liesIn_of_reads fits front each, ObjectHeader.expectCode_eq_ok.mp typed⟩
  · rintro ⟨lies, typed⟩
    have fits := lies.fits
    have roomy : frontSize ≤ b.size := Nat.le_trans (Nat.le_add_right 40 _) fits
    have few := (le_capacity_iff roomy).mpr fits
    exact parse_of_reads roomy lies.read_front lies.countable few typed fun k h =>
      lies.read_mapping h

structure Written (m : MapBlock) (e : ByteOrder) (target out : Bytes) : Prop where
  done : (m.encode e).apply target = .ok out
  size_eq : out.size = target.size
  front : ∀ i < 40, out.getPadded i = (frontCodec.encode e m.front).getPadded i
  each : ∀ k (h : k < m.mappings.length), ∀ i < 40,
    out.getPadded (mappingOffset k + i) = (m.mappings[k].encode e).getPadded i
  kept : ∀ i, 40 + 40 * m.mappings.length ≤ i → out.getPadded i = target.getPadded i

theorem Written.lies {target out : Bytes} (written : m.Written e target out)
    (fits : 40 + 40 * m.mappings.length ≤ target.size)
    (countable : m.mappings.length < UInt32.size) : m.LiesIn e out where
  fits := by rw [written.size_eq]; exact fits
  countable := countable
  front := frontCodec_exact.holds_of_encode (by decide) fun i lt => by
    rw [Nat.zero_add]
    exact written.front i lt
  each k h := EphemeralMapping.codec_exact.holds_of_encode (by decide) (written.each k h)

/-- The bytes of a block that lies in one buffer are found again in every buffer that it is written
into, except for those of the padding. -/
theorem Written.byte_eq {block target out : Bytes} (written : m.Written e target out)
    (lies : m.LiesIn e block) {i : Nat} (inside : i < 40 + 40 * m.mappings.length) :
    out.getPadded i
      = if 40 ≤ i ∧ (i - 40) % 40 ∈ [12, 13, 14, 15] then 0 else block.getPadded i := by
  rcases Nat.lt_or_ge i 40 with front | behind
  · rw [written.front i front, frontCodec_exact.encode_of_holds (by decide) front_gaps lies.front
      front, if_neg List.not_mem_nil, Nat.zero_add, if_neg (by omega)]
  · obtain ⟨k, r, lt, place⟩ : ∃ k r, r < 40 ∧ i = 40 + 40 * k + r :=
      ⟨(i - 40) / 40, (i - 40) % 40, Nat.mod_lt _ (by decide), by omega⟩
    have few : k < m.mappings.length := by omega
    have rest : (i - 40) % 40 = r := by omega
    have here := written.each k few r lt
    have there := EphemeralMapping.codec_exact.encode_of_holds (by decide) EphemeralMapping.gaps
      (lies.each k few) (i := r) lt
    rw [mappingOffset_eq, ← place] at here there
    rw [here, rest]
    simp only [behind, true_and]
    exact there

structure Readable (e : ByteOrder) (b : Bytes) : Prop where
  roomy : 40 ≤ b.size
  typed : TypeWord.code (e.field32 b 0x18) = TypeWord.checkpointMap
  counted : 40 + 40 * (e.field32 b 0x24).toNat ≤ b.size

structure HasWords (e : ByteOrder) (b : Bytes) (m : MapBlock) : Prop where
  type_eq : e.field32 b 0x18 = m.header.typeWord
  count_eq : (e.field32 b 0x24).toNat = m.mappings.length

theorem LiesIn.words (lies : m.LiesIn e b) : HasWords e b m := by
  have typed : .word 0x18 .four (·.1.typeWord.toUInt64) ∈ frontParts := by
    simp [frontParts, ObjectHeader.parts, Part.word, Part.within]
  have counted : .word 0x24 .four (·.2.2.toUInt64) ∈ frontParts := by simp [frontParts]
  have type_eq := Part.field32_of_holds (lies.front _ typed)
  have count_eq := Part.field32_of_holds (lies.front _ counted)
  refine ⟨type_eq, ?_⟩
  rw [count_eq]
  exact Nat.mod_eq_of_lt lies.countable

end ObjectStore.MapBlock
