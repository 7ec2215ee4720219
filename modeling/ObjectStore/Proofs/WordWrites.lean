import ObjectStore.Proofs.CheckedRecords
import ObjectStore.Proofs.ReversedWords

/-
Words put into a buffer. A range is looked up for writing in another way than it is checked for
reading, and both come to the same. A put changes the bytes of its own word and no others, so that
puts of words that lie apart can change places.
-/
namespace ObjectStore

namespace Encoder

variable {b new new' : Bytes} {offset offset' : Nat}

theorem write_ok_iff : ((write offset new).on b).1 = .ok () ↔
    offset + new.size < Bytes.addressLimit ∧ offset + new.size ≤ b.size := by
  rw [← Bytes.rangeError?_eq_none_iff]
  cases looked : Bytes.rangeError? b.size offset new.size with
  | none => exact iff_of_true (by rw [on_write_of_inside looked]) rfl
  | some err => exact iff_of_false (by rw [on_write_of_outside looked]; nofun) nofun

theorem write_eq_error_iff {err : DecodeError} {b' : Bytes} :
    (write offset new).on b = (.error err, b') ↔
      b' = b ∧ Bytes.rangeError? b.size offset new.size = some err := by
  cases looked : Bytes.rangeError? b.size offset new.size with
  | none => exact iff_of_false (by rw [on_write_of_inside looked]; nofun) nofun
  | some _ =>
    rw [on_write_of_outside looked, Prod.mk.injEq, Except.error.injEq, Option.some.injEq, and_comm,
      eq_comm (a := b)]

/-- Whether a write succeeds, and with which error it fails, is told by the length of the buffer. -/
theorem write_result_congr {b' : Bytes} (size_eq : b'.size = b.size) :
    ((write offset new).on b').1 = ((write offset new).on b).1 := by
  cases looked : Bytes.rangeError? b.size offset new.size with
  | none => rw [on_write_of_inside looked, on_write_of_inside (by rw [size_eq, looked])]
  | some err => rw [on_write_of_outside looked, on_write_of_outside (by rw [size_eq, looked])]

theorem getPadded_on_write (i : Nat) : ((write offset new).on b).2.getPadded i
    = if Bytes.rangeError? b.size offset new.size = none ∧ offset ≤ i ∧ i < offset + new.size then
        new.getPadded (i - offset)
      else b.getPadded i := by
  cases looked : Bytes.rangeError? b.size offset new.size with
  | none =>
    rw [on_write_of_inside looked, Bytes.getPadded_overwrite (Bytes.rangeError?_eq_none looked)]
    simp only [true_and]
  | some err => rw [on_write_of_outside looked, if_neg (by simp)]

/-- Writers that can change places: each comes to the same before the other and behind it, and
in both orders they leave the same buffer. -/
structure ChangesPlaces (w w' : Encoder Unit) (b : Bytes) : Prop where
  result_eq : (w.on (w'.on b).2).1 = (w.on b).1
  result_eq' : (w'.on (w.on b).2).1 = (w'.on b).1
  buffer_eq : (w'.on (w.on b).2).2 = (w.on (w'.on b).2).2

theorem writes_changePlaces (apart : offset + new.size ≤ offset' ∨ offset' + new'.size ≤ offset) :
    (write offset new).ChangesPlaces (write offset' new') b where
  result_eq := write_result_congr (size_on_write ..)
  result_eq' := write_result_congr (size_on_write ..)
  buffer_eq := by
    apply Bytes.ext_getPadded
    · simp only [size_on_write]
    · intro i _
      simp only [getPadded_on_write, size_on_write]
      by_cases own : Bytes.rangeError? b.size offset new.size = none ∧
        offset ≤ i ∧ i < offset + new.size
      · rw [if_neg (by omega), if_pos own, if_pos own]
      · rw [if_neg own, if_neg own]

end Encoder

namespace Checked

/-- A range of a buffer by its two ends, none if they do not lie in it one behind the other. -/
def range? (b : Bytes) (start stop : Nat) : Option Bytes :=
  if start ≤ stop ∧ stop ≤ b.size then some (b.extract start stop) else none

/-- The bytes of a range that are to be written over. What is left behind its start is counted
before it is looked up. -/
def writable (b : Bytes) (offset len : Nat) : Decoding Bytes :=
  match Machine.checkedAdd 64 offset len with
  | none => throw (.invalidField "offset" "overflow")
  | some stop =>
    let left := b.size - offset
    match range? b offset stop with
    | none => throw (.insufficientData len offset left)
    | some range => pure range

def readWord (e : ByteOrder) (w : Width) (b : Bytes) (offset : Nat) : Decoding w.Word :=
  w.narrow <$> word e w b offset

/-- Copies the bytes of a word over a range that has to be as long as they are. -/
def putWord (e : ByteOrder) (w : Width) (offset : Nat) (v : w.Word) (b : Bytes) :
    Machine (Except DecodeError Unit × Bytes) := do
  match ← (writable b offset w.bytes).run with
  | .error err => return (.error err, b)
  | .ok range =>
    let stored ← Machine.copy range (Bytes.ofList (e.bytesOf w (w.widen v)))
    return (.ok (), b.extract 0 offset ++ stored ++ b.extract (offset + w.bytes) b.size)

theorem range?_eq {b : Bytes} {start stop : Nat} (ordered : start ≤ stop)
    (inside : stop ≤ b.size) : range? b start stop = some (b.extract start stop) :=
  if_pos ⟨ordered, inside⟩

theorem range?_none {b : Bytes} {start stop : Nat} (short : b.size < stop) :
    range? b start stop = none :=
  if_neg fun ⟨_, inside⟩ => Nat.not_le_of_lt short inside

/-- The two checks of a range agree, also where its end is no address. -/
theorem writable_runs (b : Bytes) (offset len : Nat) :
    Runs (writable b offset len) (Bytes.slice b offset len) := by
  have limit : Bytes.addressLimit = 2 ^ 64 := rfl
  unfold writable Bytes.slice Bytes.rangeError?
  by_cases fits : offset + len < 2 ^ 64
  · rw [Machine.checkedAdd_eq fits, if_neg (by omega)]
    by_cases short : b.size < offset + len
    · simp only [if_pos short, range?_none short]
      exact .refused _
    · simp only [if_neg short, range?_eq (Nat.le_add_right offset len) (Nat.le_of_not_lt short)]
      exact .done _
  · rw [Machine.checkedAdd, if_neg fits, if_pos (by omega)]
    exact .refused _

theorem readWord_runs (e : ByteOrder) (w : Width) (b : Bytes) (offset : Nat) :
    Runs (readWord e w b offset) (e.readWord w b offset) := by
  rw [ByteOrder.readWord_eq]
  exact (word_runs e w b offset).map _

theorem putWord_runs (e : ByteOrder) (w : Width) (offset : Nat) (v : w.Word) (b : Bytes) :
    putWord e w offset v b = .ok ((e.putWord w offset v).on b) := by
  have size_eq := e.size_bytesOf w (w.widen v)
  have looked := writable_runs b offset w.bytes
  unfold Runs at looked
  rw [ByteOrder.putWord_eq, ByteOrder.put]
  unfold putWord
  rw [looked, ok_bind]
  cases inside : Bytes.rangeError? b.size offset w.bytes with
  | some err =>
    rw [Encoder.on_write_of_outside (size_eq ▸ inside)]
    simp only [Bytes.slice, inside]
    rfl
  | none =>
    have fits := Bytes.rangeError?_eq_none inside
    rw [Encoder.on_write_of_inside (size_eq ▸ inside), Bytes.overwrite_eq, size_eq]
    simp only [Bytes.slice, inside]
    rw [Machine.copy_eq, ok_bind]
    · rfl
    · rw [size_eq, Bytes.size_extract_of_le fits, Nat.add_sub_cancel_left]

end Checked

namespace ByteOrder

variable {e : ByteOrder} {w : Width} {offset : Nat} {v : w.Word} {b b' : Bytes}

theorem readWord_eq_error_iff {err : DecodeError} : e.readWord w b offset = .error err ↔
    Bytes.rangeError? b.size offset w.bytes = some err := by
  rw [readWord_eq, read]
  cases Bytes.rangeError? b.size offset w.bytes <;> simp [Except.map]

theorem putWord_ok_iff : ((e.putWord w offset v).on b).1 = .ok () ↔
    offset + w.bytes < Bytes.addressLimit ∧ offset + w.bytes ≤ b.size := by
  rw [putWord_eq, put, Encoder.write_ok_iff, size_bytesOf]

theorem putWord_eq_error_iff {e' : ByteOrder} {err : DecodeError} :
    (e.putWord w offset v).on b = (.error err, b') ↔
      b' = b ∧ e'.readWord w b offset = .error err := by
  rw [putWord_eq, put, Encoder.write_eq_error_iff, size_bytesOf, readWord_eq_error_iff]

/-- A put that succeeds leaves the bytes of the word in its range and all others as they are. -/
theorem putWord_writes (done : (e.putWord w offset v).on b = (.ok (), b')) :
    (e.putWord w offset v).WritesWithin offset w.bytes b b' ∧
      ∀ i (h : i < (e.bytesOf w (w.widen v)).length),
        b'.getPadded (offset + i) = (e.bytesOf w (w.widen v))[i] := by
  have inside := putWord_ok_iff.mp (congrArg Prod.fst done)
  have size_eq := size_bytesOf e w (w.widen v)
  have looked : Bytes.rangeError? b.size offset (Bytes.ofList (e.bytesOf w (w.widen v))).size
      = none := by
    rw [size_eq]
    exact Bytes.rangeError?_eq_none_iff.mpr inside
  have left : ((e.put w offset (w.widen v)).on b).2 = b' := by
    rw [← putWord_eq, done]
  refine ⟨⟨done, ?_, fun i outside => ?_⟩, fun i h => ?_⟩
  · rw [← left, put, Encoder.size_on_write]
  · rw [← left, put, Encoder.getPadded_on_write, if_neg (by omega)]
  · rw [length_bytesOf] at h
    rw [← left, put, Encoder.getPadded_on_write, if_pos ⟨looked, by omega, by omega⟩,
      Nat.add_sub_cancel_left, Bytes.getPadded_ofList]

/-- What a put has left is read in either order as the bytes say. -/
theorem readWord_of_putWord (done : (e.putWord w offset v).on b = (.ok (), b'))
    (e' : ByteOrder) : e'.readWord w b' offset
      = .ok (w.narrow (e'.wordOf (e.bytesOf w (w.widen v)))) := by
  obtain ⟨addressable, fits⟩ := putWord_ok_iff.mp (congrArg Prod.fst done)
  obtain ⟨within, holds⟩ := putWord_writes done
  rw [readWord_eq, read_eq (by rw [within.size_eq]; exact fits) addressable, field_of_bytes holds]
  rfl

/-- A word is put if its range is addressable and lies in the buffer. Then it changes the bytes of
its range only, and is read from there, in the other order with its bytes reversed. Otherwise the
buffer stays as it was, and the error is the one that reading a word of this width there gives in
either order. Puts whose ranges lie apart can change places. All this is what the copy of the word's
bytes over a range that was looked up for writing comes to. -/
theorem putWord_keeps_to_range (e : ByteOrder) (w : Width) (offset : Nat) (v : w.Word)
    (b : Bytes) :
    Checked.putWord e w offset v b = .ok ((e.putWord w offset v).on b) ∧
    (Checked.readWord e w b offset).run = .ok (e.readWord w b offset) ∧
    (((e.putWord w offset v).on b).1 = .ok () ↔
      offset + w.bytes < Bytes.addressLimit ∧ offset + w.bytes ≤ b.size) ∧
    (∀ b', (e.putWord w offset v).on b = (.ok (), b') →
      b'.size = b.size ∧
      (∀ i, i < offset ∨ offset + w.bytes ≤ i → b'.getPadded i = b.getPadded i) ∧
      e.readWord w b' offset = .ok v ∧
      ∃ r, e.other.readWord w b' offset = .ok r ∧
        w.number r = byteReversal w.bytes (w.number v)) ∧
    (∀ (e' : ByteOrder) err b', (e.putWord w offset v).on b = (.error err, b') ↔
      b' = b ∧ e'.readWord w b offset = .error err) ∧
    ∀ (e' : ByteOrder) (w' : Width) (offset' : Nat) (v' : w'.Word),
      offset + w.bytes ≤ offset' ∨ offset' + w'.bytes ≤ offset →
        (e.putWord w offset v).ChangesPlaces (e'.putWord w' offset' v') b := by
  refine ⟨Checked.putWord_runs e w offset v b, Checked.readWord_runs e w b offset, putWord_ok_iff,
    fun b' done => ?_, fun _ _ _ => putWord_eq_error_iff, fun e' w' offset' v' apart => ?_⟩
  · obtain ⟨within, -⟩ := putWord_writes done
    refine ⟨within.size_eq, within.outside, ?_, _, readWord_of_putWord done e.other,
      number_wordOf_other e w v⟩
    rw [readWord_of_putWord done, narrow_wordOf_bytesOf]
  · rw [putWord_eq, putWord_eq]
    apply Encoder.writes_changePlaces
    rw [size_bytesOf, size_bytesOf]
    exact apart

/-- The container magic put in the big order, which is its other spelling in the little one. A put
whose end is no address is refused as a read is. -/
theorem putWord_keeps_to_range_magic :
    (∃ b', (putWord .big .four 4 containerMagic).on (Bytes.zeros 16) = (.ok (), b') ∧
      b'.getPadded 3 = 0 ∧ b'.getPadded 8 = 0 ∧ readWord .big .four b' 4 = .ok containerMagic ∧
      ∃ r, readWord .little .four b' 4 = .ok r ∧ Width.number .four r = 0x4E585342) ∧
    (putWord .big .four (Bytes.addressLimit - 1) containerMagic).on (Bytes.zeros 16)
      = (.error (.invalidField "offset" "overflow"), Bytes.zeros 16) ∧
    (putWord .big .four 4 containerMagic).ChangesPlaces
      (putWord .little .two 8 (0xBEEF : UInt16)) (Bytes.zeros 16) := by
  have room := Bytes.size_zeros 16
  obtain ⟨-, -, ok_iff, stored, -, apart⟩ :=
    putWord_keeps_to_range .big .four 4 containerMagic (Bytes.zeros 16)
  obtain ⟨-, -, -, -, fails_iff, -⟩ := putWord_keeps_to_range .big .four
    (Bytes.addressLimit - 1) containerMagic (Bytes.zeros 16)
  have refused : readWord .little .four (Bytes.zeros 16) (Bytes.addressLimit - 1)
      = .error (.invalidField "offset" "overflow") := readWord_eq_error_iff.mpr rfl
  refine ⟨?_, (fails_iff .little _ _).mpr ⟨rfl, refused⟩, apart _ _ _ _ (.inl (by decide))⟩
  have succeeds := ok_iff.mpr ⟨by decide, by rw [room]; decide⟩
  rcases run : (putWord .big .four 4 containerMagic).on (Bytes.zeros 16) with ⟨_, b'⟩
  rw [run] at succeeds
  cases succeeds
  obtain ⟨-, outside, same, r, reversed, number_eq⟩ := stored b' run
  refine ⟨b', rfl, ?_, ?_, same, r, reversed, number_eq⟩
  · rw [outside 3 (.inl (by decide)), Bytes.getPadded_zeros]
  · rw [outside 8 (.inr (by decide)), Bytes.getPadded_zeros]

end ByteOrder

end ObjectStore
