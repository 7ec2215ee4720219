import ObjectStore.Draft.Object
import ObjectStore.Proofs.FixedRecords

/-
Objects that have got their checksum. Storing it changes the first field of the header and
nothing else, so the object verifies and every other field reads as before.
-/
namespace ObjectStore

open Codec

namespace Object

structure Sealed (e : ByteOrder) (b : Bytes) (sum : UInt64) (b' : Bytes) : Prop where
  roomy : ObjectHeader.size ≤ b.size
  addressable : b.size < Bytes.addressLimit
  size_eq : b'.size = b.size
  stored : word64.read e b' 0 = .ok sum
  behind : ∀ i, checksumSize ≤ i → b'.getPadded i = b.getPadded i
  verified : verifies e b' = true

theorem checksum_of_roomy (e : ByteOrder) {b : Bytes} (roomy : ObjectHeader.size ≤ b.size) :
    checksum e b = .ok (Fletcher.checksum e (b.drop checksumSize)) := by
  rw [checksum, Bytes.require, if_neg (by omega)]
  rfl

theorem writeChecksum_seals (e : ByteOrder) {b : Bytes} (roomy : ObjectHeader.size ≤ b.size)
    (addressable : b.size < Bytes.addressLimit) :
    ∃ sum b', (writeChecksum e).on b = (.ok (), b') ∧ Sealed e b sum b' := by
  have small : word64.size = 8 := rfl
  have large : ObjectHeader.size = 32 := rfl
  obtain ⟨b', written, stored⟩ := word64_laid.lawful.write_read e 0
    (Fletcher.checksum e (b.drop checksumSize)) (b := b) (by omega) addressable
  have behind : ∀ i, checksumSize ≤ i → b'.getPadded i = b.getPadded i := by
    have width : checksumSize = 8 := rfl
    exact fun i le => written.outside i (by omega)
  have same_rest : b'.drop checksumSize = b.drop checksumSize := by
    rw [Bytes.drop, Bytes.drop, written.size_eq]
    apply Bytes.ext_getPadded
    · rw [Bytes.size_extract_of_le (Nat.le_of_eq written.size_eq.symm),
        Bytes.size_extract_of_le (Nat.le_refl _)]
    · intro i lt
      rw [Bytes.size_extract_of_le (Nat.le_of_eq written.size_eq.symm)] at lt
      rw [Bytes.getPadded_extract (by omega), Bytes.getPadded_extract (by omega)]
      exact behind _ (by omega)
  refine ⟨_, b', ?_, roomy, addressable, written.size_eq, stored, behind, ?_⟩
  · have done := written.done
    simp only [Encoder.on, writeChecksum, checksum_of_roomy e roomy] at done ⊢
    exact done
  · have read : e.read64 b' 0 = .ok (Fletcher.checksum e (b.drop checksumSize)) := stored
    rw [verifies, checksum_of_roomy e (by rw [written.size_eq]; exact roomy), read, same_rest]
    simp

namespace Sealed

variable {e : ByteOrder} {b b' : Bytes} {sum : UInt64}

/-- What lies behind the checksum field reads as before. -/
theorem read_behind (s : Sealed e b sum b') {c : Codec α} {f : α → α} (lawful : Lawful c f)
    (offset : Nat) (behind : checksumSize ≤ offset) (fits : offset + c.size ≤ b.size) :
    c.read e b' offset = c.read e b offset := by
  have size_eq := s.size_eq
  have addressable := s.addressable
  exact lawful.same_bytes ⟨by omega, fits, by omega, by omega,
    fun i _ => s.behind _ (by omega)⟩

theorem read_header (s : Sealed e b sum b') {h : ObjectHeader}
    (read : ObjectHeader.codec.read e b 0 = .ok h) :
    ObjectHeader.codec.read e b' 0 = .ok { h with checksum := sum } := by
  have roomy := s.roomy
  have large : ObjectHeader.size = 32 := rfl
  have tail := s.read_behind (word64_laid.seq <| word64_laid.seq <|
    word32_laid.seq word32_laid).lawful (0 + word64.size) (Nat.le_refl _)
    (by change 8 + 24 ≤ b.size; omega)
  simp only [ObjectHeader.codec, Codec.map] at read ⊢
  rw [Codec.seq] at read ⊢
  dsimp only at read ⊢
  rw [s.stored, tail]
  cases first : word64.read e b 0 with
  | error err => rw [first] at read; cases read
  | ok old =>
    rw [first] at read
    cases rest : (word64.seq (word64.seq (word32.seq word32))).read e b (0 + word64.size) with
    | error err => rw [rest] at read; cases read
    | ok fields =>
      rw [rest] at read
      cases read
      rfl

/-- A record that starts with an object header. -/
theorem read_record (s : Sealed e b sum b') {c : Codec α} {f : α → α} (lawful : Lawful c f)
    (fits : ObjectHeader.codec.size + c.size ≤ b.size) {h : ObjectHeader} {rest : α}
    (read : (ObjectHeader.codec.seq c).read e b 0 = .ok (h, rest)) :
    (ObjectHeader.codec.seq c).read e b' 0 = .ok ({ h with checksum := sum }, rest) := by
  have behind := s.read_behind lawful (0 + ObjectHeader.codec.size)
    (by change 8 ≤ 32; omega) (by omega)
  simp only [Codec.seq] at read ⊢
  cases front : ObjectHeader.codec.read e b 0 with
  | error err => rw [front] at read; cases read
  | ok header =>
    rw [front] at read
    cases back : c.read e b (0 + ObjectHeader.codec.size) with
    | error err => rw [back] at read; cases read
    | ok fields =>
      rw [back] at read
      cases read
      rw [s.read_header front, behind, back]
      rfl

end Sealed

end Object

end ObjectStore
