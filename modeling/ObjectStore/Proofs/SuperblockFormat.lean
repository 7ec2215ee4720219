import ObjectStore.Proofs.CheckpointScan
import ObjectStore.Proofs.FixedRecords

/-
Superblocks and their blocks. A block is read as a superblock exactly when four of its words are
as they should be, and then it is told by the superblock up to the last volume slot; a superblock
that is valid comes back from what it is written as, in the order in which it was written.
-/
namespace ObjectStore

open Codec

namespace BlockSize

/-- A power of two that a container may use for its blocks. -/
def Admissible (word : UInt32) : Prop :=
  word.toNat.isPowerOfTwo ∧ 4096 ≤ word.toNat ∧ word.toNat ≤ 65536

theorem mem_legal {word : UInt32} : word ∈ legal ↔ Admissible word := by
  constructor
  · intro listed
    simp only [legal, List.mem_cons, List.not_mem_nil, or_false] at listed
    rcases listed with rfl | rfl | rfl | rfl | rfl
    · exact ⟨⟨12, rfl⟩, by decide, by decide⟩
    · exact ⟨⟨13, rfl⟩, by decide, by decide⟩
    · exact ⟨⟨14, rfl⟩, by decide, by decide⟩
    · exact ⟨⟨15, rfl⟩, by decide, by decide⟩
    · exact ⟨⟨16, rfl⟩, by decide, by decide⟩
  · rintro ⟨⟨k, power⟩, least, most⟩
    rw [power] at least most
    have low : 12 ≤ k := (Nat.pow_le_pow_iff_right (by decide : 1 < 2)).mp least
    have high : k ≤ 16 := (Nat.pow_le_pow_iff_right (by decide : 1 < 2)).mp most
    have word_eq : word = UInt32.ofNat (2 ^ k) := by
      rw [← power, UInt32.ofNat_toNat]
    have few : k = 12 ∨ k = 13 ∨ k = 14 ∨ k = 15 ∨ k = 16 := by omega
    rcases few with rfl | rfl | rfl | rfl | rfl
    all_goals
      rw [word_eq]
      decide

end BlockSize

theorem Codec.filled_eq {blank : α} {n : Nat} {l : List α} (few : l.length ≤ n) :
    filled blank n l = l ++ List.replicate (n - l.length) blank := by
  induction n generalizing l with
  | zero =>
    have empty : l = [] := List.length_eq_zero_iff.mp (by omega)
    simp [empty, filled]
  | succ n ih =>
    cases l with
    | nil => simp [filled, ih, List.replicate_succ]
    | cons a l => simp [filled, ih (by simpa using few)]

theorem Codec.length_filled (blank : α) (n : Nat) (l : List α) :
    (filled blank n l).length = n := by
  induction n generalizing l with
  | zero => simp [filled]
  | succ n ih => simp [filled, ih]

namespace Superblock

variable {e : ByteOrder} {block : Bytes}

/-- The words of a block that decide whether a superblock is read from it. -/
structure Readable (e : ByteOrder) (block : Bytes) : Prop where
  roomy : 984 ≤ block.size
  magic : e.field32 block 0x20 = containerMagic
  typed : TypeWord.code (e.field32 block 0x18) = TypeWord.containerSuperblock
  sized : BlockSize.Admissible (e.field32 block 0x24)
  slotted : (e.field32 block 0xB4).toNat ≤ 100

/-- The same of the fields of a superblock, with no more volumes than there are slots. -/
structure Valid (s : Superblock) : Prop where
  typed : s.header.typeCode = TypeWord.containerSuperblock
  sized : BlockSize.Admissible s.blockSize
  slotted : s.maxVolumes.toNat ≤ 100
  few : s.volumes.length ≤ 100

structure HasWords (e : ByteOrder) (block : Bytes) (magic : UInt32) (s : Superblock) : Prop where
  magic_eq : e.field32 block 0x20 = magic
  type_eq : e.field32 block 0x18 = s.header.typeWord
  size_eq : e.field32 block 0x24 = s.blockSize
  slots_eq : e.field32 block 0xB4 = s.maxVolumes

theorem words_of_holds {p : UInt32 × Superblock}
    (holds : ∀ part ∈ parts, part.Holds e block 0 p) : HasWords e block p.1 p.2 := by
  have magic : .word 0x20 .four (·.1.toUInt64) ∈ parts := by simp [parts]
  have typed : .word 0x18 .four (·.2.header.typeWord.toUInt64) ∈ parts := by
    simp [parts, ObjectHeader.parts, Part.word, Part.within]
  have sized : .word 0x24 .four (·.2.blockSize.toUInt64) ∈ parts := by simp [parts]
  have slotted : .word 0xB4 .four (·.2.maxVolumes.toUInt64) ∈ parts := by simp [parts]
  have magic_eq := Part.field32_of_holds (holds _ magic)
  have type_eq := Part.field32_of_holds (holds _ typed)
  have size_eq := Part.field32_of_holds (holds _ sized)
  have slots_eq := Part.field32_of_holds (holds _ slotted)
  exact ⟨magic_eq, type_eq, size_eq, slots_eq⟩

theorem full_eq {s : Superblock} (few : s.volumes.length ≤ volumeSlots) :
    s.full = { s with
      volumes := s.volumes ++ List.replicate (volumeSlots - s.volumes.length) 0 } := by
  rw [full, filled_eq few]

theorem full_of_length {s : Superblock} (length_eq : s.volumes.length = volumeSlots) :
    s.full = s := by
  rw [full_eq (by omega), length_eq]
  simp

theorem addressable : codec.size < Bytes.addressLimit := by
  rw [size_codec]
  decide

theorem decode_of_holds {p : UInt32 × Superblock} (roomy : 984 ≤ block.size)
    (holds : ∀ part ∈ parts, part.Holds e block 0 p) :
    codec.decode e block = .ok (p.1, p.2.full) := by
  have width := size_codec
  have addressable := addressable
  rw [decode_of_fits (by omega)]
  exact (codec_exact.read_iff (by omega) (by omega)).mpr holds

/-- A block that is long enough holds some superblock behind some magic number. -/
theorem exists_holds (e : ByteOrder) (roomy : 984 ≤ block.size) :
    ∃ p : UInt32 × Superblock, ∀ part ∈ parts, part.Holds e block 0 p := by
  have width := size_codec
  have addressable := addressable
  obtain ⟨p, read⟩ := codec_exact.reads e block 0 (by omega) (by omega)
  exact ⟨p, (codec_exact.read_iff (by omega) (by omega)).mp read⟩

theorem parse_of_holds {p : UInt32 × Superblock} (readable : Readable e block)
    (holds : ∀ part ∈ parts, part.Holds e block 0 p) : parse e block = .ok p.2.full := by
  have words := words_of_holds holds
  have marked : p.1 = containerMagic := words.magic_eq.symm.trans readable.magic
  have sized := readable.sized
  have typed := readable.typed
  have slotted := readable.slotted
  rw [words.size_eq] at sized
  rw [words.type_eq] at typed
  rw [words.slots_eq] at slotted
  have decoded := decode_of_holds readable.roomy holds
  rw [marked] at decoded
  exact parse_eq_ok.mpr ⟨decoded, typed, BlockSize.mem_legal.mpr sized, slotted⟩

/-- What is read from a block is held by it, and has all its volume slots. -/
theorem holds_of_parse {s : Superblock} (parsed : parse e block = .ok s) :
    Readable e block ∧ s.full = s ∧ ∀ part ∈ parts, part.Holds e block 0 (containerMagic, s) := by
  have width := size_codec
  have addressable := addressable
  obtain ⟨decoded, typed, legal, slotted⟩ := parse_eq_ok.mp parsed
  have roomy : 984 ≤ block.size := by
    obtain ⟨_, room, -⟩ := bind_eq_ok.mp decoded
    have := Bytes.require_eq_ok.mp room
    omega
  obtain ⟨p, holds⟩ := exists_holds e roomy
  have found := decode_of_holds roomy holds
  rw [decoded, Except.ok.injEq, Prod.mk.injEq] at found
  obtain ⟨marked, same⟩ := found
  have all_slots : s.full = s := by
    apply full_of_length
    rw [same]
    exact length_filled _ _ _
  have words := words_of_holds holds
  have held : ∀ part ∈ parts, part.Holds e block 0 (containerMagic, s) := by
    apply (codec_exact.read_iff (by omega) (by omega)).mp
    rw [← decode_of_fits (by omega), decoded]
    exact congrArg (fun t => Except.ok (containerMagic, t)) all_slots.symm
  have words := words_of_holds held
  refine ⟨⟨roomy, words.magic_eq, ?_, ?_, ?_⟩, all_slots, held⟩
  · rw [words.type_eq]
    exact typed
  · rw [words.size_eq]
    exact BlockSize.mem_legal.mp legal
  · rw [words.slots_eq]
    exact slotted

theorem encode_eq {s : Superblock} (few : s.volumes.length ≤ volumeSlots) :
    s.encode e = codec.write e 0 (containerMagic, s) := by
  rw [encode, if_neg (Nat.not_lt.mpr few)]

theorem encode_of_parse {s : Superblock} {target : Bytes} (parsed : parse e block = .ok s)
    (fits : 984 ≤ target.size) :
    (s.encode e).apply target = .ok (block.extract 0 984 ++ target.drop 984) := by
  have width := size_codec
  obtain ⟨readable, all_slots, holds⟩ := holds_of_parse parsed
  have roomy := readable.roomy
  have few : s.volumes.length ≤ volumeSlots := by
    rw [← all_slots]
    exact Nat.le_of_eq (length_filled _ _ _)
  rw [encode_eq few, codec_exact.apply_write addressable gaps e _ (by omega),
    codec_exact.encode_eq_extract addressable gaps (by omega) holds, width]

/-- A valid superblock is read back from wherever it has been written. -/
theorem Valid.readable {s : Superblock} (valid : s.Valid) (roomy : 984 ≤ block.size)
    (holds : ∀ part ∈ parts, part.Holds e block 0 (containerMagic, s)) : Readable e block := by
  have words := words_of_holds holds
  refine ⟨roomy, words.magic_eq, ?_, ?_, ?_⟩
  · rw [words.type_eq]
    exact valid.typed
  · rw [words.size_eq]
    exact valid.sized
  · rw [words.slots_eq]
    exact valid.slotted

theorem parse_of_other_magic (roomy : 984 ≤ block.size)
    (other : e.field32 block 0x20 ≠ containerMagic) :
    parse e block = .error (.invalidMagic containerMagic.toUInt64
      (e.field32 block 0x20).toUInt64) := by
  obtain ⟨p, holds⟩ := exists_holds e roomy
  have marked := (words_of_holds holds).magic_eq
  rw [marked] at other ⊢
  rw [parse, decode_of_holds roomy holds, ok_bind]
  exact if_pos other

/-- The magic number of one order, read in the other, is its own mirror image. -/
theorem mirrored_magic {e e' : ByteOrder} (other : e' ≠ e) :
    (e'.wordOf (e.bytesOf .four containerMagic.toUInt64)).toUInt32 = 0x4E585342 := by
  cases e with
  | little =>
    cases e' with
    | little => exact absurd rfl other
    | big => decide
  | big =>
    cases e' with
    | little => decide
    | big => exact absurd rfl other

/-- Exactly the readable blocks are parsed, and what is parsed writes their front again. A valid
superblock is written wherever there is room, and read back from there in its own order alone. -/
theorem parse_encode_faithful (e : ByteOrder) :
    (∀ block : Bytes, (∃ s, parse e block = .ok s) ↔ Readable e block) ∧
    (∀ (block target : Bytes) (s : Superblock), parse e block = .ok s → 984 ≤ target.size →
      (s.encode e).apply target = .ok (block.extract 0 984 ++ target.drop 984)) ∧
    ∀ s : Superblock, s.Valid → ∀ target : Bytes,
      (target.size < 984 → TooShort ((s.encode e).apply target)) ∧
      (984 ≤ target.size → ∃ out, (s.encode e).apply target = .ok out ∧
        detectOrder out = .ok e ∧
        parse e out = .ok { s with
          volumes := s.volumes ++ List.replicate (100 - s.volumes.length) 0 } ∧
        ∀ e', e' ≠ e → parse e' out = .error (.invalidMagic 0x4253584E 0x4E585342)) := by
  have width := size_codec
  have addressable := addressable
  refine ⟨fun block => ⟨?_, ?_⟩, fun _ _ _ => encode_of_parse, fun s valid target => ⟨?_, ?_⟩⟩
  · rintro ⟨s, parsed⟩
    exact (holds_of_parse parsed).1
  · intro readable
    obtain ⟨p, holds⟩ := exists_holds e readable.roomy
    exact ⟨p.2.full, parse_of_holds readable holds⟩
  · intro short
    rw [encode_eq valid.few]
    exact codec_exact.write_short (by omega) (by omega)
  · intro fits
    obtain ⟨out, written, rewritten⟩ := codec_exact.writes e 0 (containerMagic, s) (b := target)
      (by omega) (by omega)
    have size_eq := rewritten.size_eq
    have holds := rewritten.holds
    have marked : .word 0x20 .four (·.1.toUInt64) ∈ parts := by simp [parts]
    have magic := Part.holds_word.mp (holds _ marked)
    rw [Nat.zero_add] at magic
    refine ⟨out, ?_, ?_, ?_, fun e' other => ?_⟩
    · rw [encode_eq valid.few, apply_eq_ok]
      exact written
    · exact ObjectDraft.detectOrder_of_bytes (by simp only [magicOffset]; omega) magic
    · have few : s.volumes.length ≤ volumeSlots := valid.few
      have slots : volumeSlots = 100 := rfl
      rw [parse_of_holds (valid.readable (by omega) holds) holds, full_eq few, slots]
    · have mirrored : e'.field32 out 0x20 = 0x4E585342 := by
        rw [← mirrored_magic other]
        exact congrArg (fun l => (e'.wordOf l).toUInt32) magic
      rw [parse_of_other_magic (by omega) (by rw [mirrored]; decide), mirrored]
      rfl

def twoVolumes : Superblock where
  header := ⟨0, 1, 7, 0x80000001, 0⟩
  blockSize := 4096
  blockCount := 8
  features := 0
  readonlyFeatures := 0
  incompatibleFeatures := 2
  uuid := Bytes.fixed 16 (Bytes.zeros 16)
  nextOid := 1028
  nextXid := 8
  descBlocksWord := 2
  dataBlocksWord := 1
  descBase := 1
  dataBase := 3
  descNext := 0
  dataNext := 1
  descIndex := 0
  descLength := 2
  dataIndex := 0
  dataLength := 1
  spaceManagerOid := 1024
  objectMap := 4
  reaperOid := 1025
  testType := 0
  maxVolumes := 2
  volumes := [1026, 1027]

theorem twoVolumes_valid : twoVolumes.Valid :=
  ⟨by decide, ⟨⟨12, by decide⟩, by decide, by decide⟩, by decide, by decide⟩

theorem parse_encode_faithful_two_volumes : ∃ (s : Superblock) (out : Bytes),
    (twoVolumes.encode .big).apply (Bytes.zeros 4096) = .ok out ∧ parse .big out = .ok s ∧
      s.volumes.take 3 = [1026, 1027, 0] ∧ Readable .big out ∧ detectOrder out = .ok .big ∧
      parse .little out = .error (.invalidMagic 0x4253584E 0x4E585342) ∧
      (s.encode .big).apply (Bytes.zeros 1000)
        = .ok (out.extract 0 984 ++ (Bytes.zeros 1000).drop 984) ∧
      TooShort ((twoVolumes.encode .big).apply (Bytes.zeros 983)) := by
  have small : (Bytes.zeros 983).size < 984 := by simp [Bytes.size_zeros]
  have large : 984 ≤ (Bytes.zeros 1000).size := by simp [Bytes.size_zeros]
  have block : 984 ≤ (Bytes.zeros 4096).size := by simp [Bytes.size_zeros]
  obtain ⟨accepts, reencodes, comes_back⟩ := parse_encode_faithful .big
  obtain ⟨out, written, ordered, parsed, refused⟩ :=
    (comes_back twoVolumes twoVolumes_valid (Bytes.zeros 4096)).2 block
  refine ⟨_, out, written, parsed, rfl, (accepts out).mp ⟨_, parsed⟩, ordered,
    refused .little (by decide), reencodes out _ _ parsed large, ?_⟩
  exact (comes_back twoVolumes twoVolumes_valid (Bytes.zeros 983)).1 small

end Superblock

end ObjectStore
