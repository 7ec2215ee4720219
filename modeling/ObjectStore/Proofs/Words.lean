import ObjectStore.Bytes.Order
import ObjectStore.Proofs.Buffers

/-
Stored words. The bytes of a word give it back in the order in which they were made, cut to the
width of the field.
-/
namespace ObjectStore

theorem length_littleBytes (n : Nat) (v : UInt64) : (littleBytes n v).length = n := by
  induction n generalizing v with
  | zero => rfl
  | succ n ih => rw [littleBytes, List.length_cons, ih]

def byteLimit : Nat → Nat
  | 0 => 1
  | n + 1 => 256 * byteLimit n

theorem byteLimit_le {m n : Nat} (le : m ≤ n) : byteLimit m ≤ byteLimit n := by
  induction le with
  | refl => exact Nat.le_refl _
  | step _ ih =>
    rw [byteLimit]
    omega

theorem toNat_ofLittleBytes_cons {b : UInt8} {rest : List UInt8}
    (short : (ofLittleBytes rest).toNat < byteLimit 7) :
    (ofLittleBytes (b :: rest)).toNat = b.toNat + 256 * (ofLittleBytes rest).toNat := by
  have limit : byteLimit 7 = 72057594037927936 := rfl
  have small : b.toNat < 2 ^ 8 := b.toNat_lt
  have shifted : (ofLittleBytes rest <<< 8).toNat = 2 ^ 8 * (ofLittleBytes rest).toNat := by
    rw [UInt64.toNat_shiftLeft, Nat.shiftLeft_eq]
    simp only [UInt64.reduceToNat, Nat.reduceMod]
    omega
  -- The shifted rest leaves the low byte free, so the two are joined as they are added.
  rw [ofLittleBytes, UInt64.toNat_or, shifted, UInt8.toNat_toUInt64, Nat.or_comm,
    ← Nat.two_pow_add_eq_or_of_lt small]
  omega

theorem toNat_ofLittleBytes_lt {l : List UInt8} (short : l.length ≤ 8) :
    (ofLittleBytes l).toNat < byteLimit l.length := by
  induction l with
  | nil => decide
  | cons b rest ih =>
    rw [List.length_cons] at short
    have below := ih (by omega)
    have small : b.toNat < 256 := b.toNat_lt
    have limit := byteLimit_le (show rest.length ≤ 7 by omega)
    rw [toNat_ofLittleBytes_cons (by omega), List.length_cons, byteLimit]
    omega

theorem toNat_shiftRight_eight (v : UInt64) : (v >>> 8).toNat = v.toNat / 256 := by
  rw [UInt64.toNat_shiftRight, Nat.shiftRight_eq_div_pow]
  rfl

theorem toNat_ofLittleBytes_littleBytes {n : Nat} (width : n ≤ 8) (v : UInt64) :
    (ofLittleBytes (littleBytes n v)).toNat = v.toNat % byteLimit n := by
  induction n generalizing v with
  | zero => simp [littleBytes, ofLittleBytes, byteLimit, Nat.mod_one]
  | succ n ih =>
    have below := toNat_ofLittleBytes_lt (l := littleBytes n (v >>> 8))
      (by rw [length_littleBytes]; omega)
    rw [length_littleBytes] at below
    have limit := byteLimit_le (show n ≤ 7 by omega)
    have low : v.toUInt8.toNat = v.toNat % 256 := UInt64.toNat_toUInt8 v
    rw [littleBytes, toNat_ofLittleBytes_cons (by omega), ih (by omega), low,
      toNat_shiftRight_eight, byteLimit, Nat.mod_mul]

theorem ofLittleBytes_inj {l l' : List UInt8} (lengths : l.length = l'.length)
    (short : l.length ≤ 8) (same : ofLittleBytes l = ofLittleBytes l') : l = l' := by
  induction l generalizing l' with
  | nil =>
    rw [List.length_nil] at lengths
    exact (List.length_eq_zero_iff.mp lengths.symm).symm
  | cons b rest ih =>
    cases l' with
    | nil => cases lengths
    | cons b' rest' =>
      simp only [List.length_cons] at lengths short
      have limit := byteLimit_le (show rest.length ≤ 7 by omega)
      have limit' := byteLimit_le (show rest'.length ≤ 7 by omega)
      have below := toNat_ofLittleBytes_lt (l := rest) (by omega)
      have below' := toNat_ofLittleBytes_lt (l := rest') (by omega)
      have words := congrArg UInt64.toNat same
      rw [toNat_ofLittleBytes_cons (by omega), toNat_ofLittleBytes_cons (by omega)] at words
      have small := b.toNat_lt
      have small' := b'.toNat_lt
      have first : b = b' := UInt8.toNat_inj.mp (by omega)
      have later : ofLittleBytes rest = ofLittleBytes rest' := UInt64.toNat_inj.mp (by omega)
      rw [first, ih (by omega) (by omega) later]

namespace Width

theorem bytes_le (w : Width) : w.bytes ≤ 8 := by cases w <;> decide

def Word : Width → Type
  | .two => UInt16
  | .four => UInt32
  | .eight => UInt64

def widen : (w : Width) → w.Word → UInt64
  | .two, v => UInt16.toUInt64 v
  | .four, v => UInt32.toUInt64 v
  | .eight, v => v

def narrow : (w : Width) → UInt64 → w.Word
  | .two, x => x.toUInt16
  | .four, x => x.toUInt32
  | .eight, x => x

def number (w : Width) (v : w.Word) : Nat := (w.widen v).toNat

theorem narrow_widen (w : Width) (v : w.Word) : w.narrow (w.widen v) = v := by
  cases w with
  | two => exact UInt16.toUInt16_toUInt64 v
  | four => exact UInt32.toUInt32_toUInt64 v
  | eight => rfl

theorem number_narrow (w : Width) (x : UInt64) :
    w.number (w.narrow x) = x.toNat % byteLimit w.bytes := by
  cases w with
  | two => exact (UInt16.toNat_toUInt64 _).trans (UInt64.toNat_toUInt16 x)
  | four => exact (UInt32.toNat_toUInt64 _).trans (UInt64.toNat_toUInt32 x)
  | eight => exact (Nat.mod_eq_of_lt x.toNat_lt).symm

theorem number_lt (w : Width) (v : w.Word) : w.number v < byteLimit w.bytes := by
  have whole := w.number_narrow (w.widen v)
  rw [narrow_widen] at whole
  have below := Nat.mod_lt (w.widen v).toNat (show 0 < byteLimit w.bytes by cases w <;> decide)
  omega

/-- A wide word with the number of a narrow one is cut to it. -/
theorem narrow_eq {w : Width} {x : UInt64} {v : w.Word} (same : x.toNat = w.number v) :
    w.narrow x = v := by
  rw [UInt64.toNat_inj.mp same, narrow_widen]

end Width

namespace ByteOrder

theorem length_bytesOf (e : ByteOrder) (w : Width) (v : UInt64) :
    (e.bytesOf w v).length = w.bytes := by
  cases e
  · exact length_littleBytes _ _
  · rw [bytesOf, List.length_reverse, length_littleBytes]

theorem size_bytesOf (e : ByteOrder) (w : Width) (v : UInt64) :
    (Bytes.ofList (e.bytesOf w v)).size = w.bytes := by
  rw [Bytes.size_ofList, length_bytesOf]

theorem toNat_wordOf_bytesOf (e : ByteOrder) (w : Width) (v : UInt64) :
    (e.wordOf (e.bytesOf w v)).toNat = v.toNat % byteLimit w.bytes := by
  cases e
  · exact toNat_ofLittleBytes_littleBytes w.bytes_le v
  · rw [bytesOf, wordOf, List.reverse_reverse]
    exact toNat_ofLittleBytes_littleBytes w.bytes_le v

/-- A word is told from its bytes, whatever its width. -/
theorem narrow_wordOf_bytesOf (e : ByteOrder) (w : Width) (v : w.Word) :
    w.narrow (e.wordOf (e.bytesOf w (w.widen v))) = v := by
  apply Width.narrow_eq
  rw [toNat_wordOf_bytesOf]
  exact Nat.mod_eq_of_lt (w.number_lt v)

theorem toUInt16_wordOf_bytesOf (e : ByteOrder) (v : UInt16) :
    (e.wordOf (e.bytesOf .two v.toUInt64)).toUInt16 = v :=
  e.narrow_wordOf_bytesOf .two v

theorem toUInt32_wordOf_bytesOf (e : ByteOrder) (v : UInt32) :
    (e.wordOf (e.bytesOf .four v.toUInt64)).toUInt32 = v :=
  e.narrow_wordOf_bytesOf .four v

theorem wordOf_bytesOf (e : ByteOrder) (v : UInt64) : e.wordOf (e.bytesOf .eight v) = v :=
  e.narrow_wordOf_bytesOf .eight v

theorem toNat_wordOf_lt (e : ByteOrder) {l : List UInt8} (short : l.length ≤ 8) :
    (e.wordOf l).toNat < byteLimit l.length := by
  cases e with
  | little => exact toNat_ofLittleBytes_lt short
  | big =>
    have below := toNat_ofLittleBytes_lt (l := l.reverse) (by rw [List.length_reverse]; exact short)
    rw [List.length_reverse] at below
    exact below

/-- The bytes in which a word is stored are told from the word. -/
theorem wordOf_inj {e : ByteOrder} {l l' : List UInt8} (lengths : l.length = l'.length)
    (short : l.length ≤ 8) (same : e.wordOf l = e.wordOf l') : l = l' := by
  cases e with
  | little => exact ofLittleBytes_inj lengths short same
  | big =>
    apply List.reverse_inj.mp
    apply ofLittleBytes_inj _ _ same
    · simpa using lengths
    · simpa using short

theorem eq_bytesOf {e : ByteOrder} {w : Width} {l : List UInt8} {v : UInt64}
    (length_eq : l.length = w.bytes) (fits : v.toNat < byteLimit w.bytes)
    (word : e.wordOf l = v) : l = e.bytesOf w v := by
  have width := w.bytes_le
  have stored : e.wordOf (e.bytesOf w v) = v := by
    apply UInt64.toNat_inj.mp
    rw [toNat_wordOf_bytesOf, Nat.mod_eq_of_lt fits]
  exact wordOf_inj (by rw [length_bytesOf, length_eq]) (by omega) (word.trans stored.symm)

/-- The bytes of a range that holds a list. -/
theorem range_map_getPadded {b : Bytes} {offset : Nat} {l : List UInt8}
    (holds : ∀ i (h : i < l.length), b.getPadded (offset + i) = l[i]) :
    ((List.range l.length).map fun i => b.getPadded (offset + i)) = l := by
  apply List.ext_getElem
  · simp
  · intro i _ h
    rw [List.getElem_map, List.getElem_range]
    exact holds i h

/-- The word that lies at a place, with zeros past the end of the buffer. -/
def field (e : ByteOrder) (w : Width) (b : Bytes) (place : Nat) : UInt64 :=
  e.wordOf ((List.range w.bytes).map fun i => b.getPadded (place + i))

theorem field_congr {e : ByteOrder} {w : Width} {b b' : Bytes} {place place' : Nat}
    (same : ∀ i < w.bytes, b.getPadded (place + i) = b'.getPadded (place' + i)) :
    e.field w b place = e.field w b' place' := by
  have bytes : (List.range w.bytes).map (fun i => b.getPadded (place + i))
      = (List.range w.bytes).map fun i => b'.getPadded (place' + i) :=
    List.map_congr_left fun i mem => same i (List.mem_range.mp mem)
  rw [field, field, bytes]

theorem field_drop (e : ByteOrder) (w : Width) (b : Bytes) (start place : Nat) :
    e.field w (b.drop start) place = e.field w b (start + place) := by
  apply field_congr
  intro i _
  rw [Bytes.getPadded_drop, Nat.add_assoc]

theorem field_extract {e : ByteOrder} {w : Width} {b : Bytes} {start stop place : Nat}
    (fits : start + place + w.bytes ≤ stop) :
    e.field w (b.extract start stop) place = e.field w b (start + place) := by
  apply field_congr
  intro i lt
  rw [Bytes.getPadded_extract (by omega), Nat.add_assoc]

theorem read_eq {e : ByteOrder} {w : Width} {b : Bytes} {offset : Nat}
    (fits : offset + w.bytes ≤ b.size) (addressable : offset + w.bytes < Bytes.addressLimit) :
    e.read w b offset = .ok (e.field w b offset) := by
  have inside := Bytes.rangeError?_of_fits fits addressable
  rw [read, inside, field]

/-- The bytes of a word may be looked at in either order. -/
theorem field_of_bytes {e e' : ByteOrder} {w : Width} {b : Bytes} {place : Nat} {v : UInt64}
    (holds : ∀ i (h : i < (e.bytesOf w v).length), b.getPadded (place + i) = (e.bytesOf w v)[i]) :
    e'.field w b place = e'.wordOf (e.bytesOf w v) := by
  rw [field, ← e.length_bytesOf w v, range_map_getPadded holds]

/-- A word that lies at an offset is read from there. -/
theorem read_of_bytes {e : ByteOrder} {w : Width} {b : Bytes} {offset : Nat} {v : UInt64}
    (fits : offset + w.bytes ≤ b.size) (addressable : b.size < Bytes.addressLimit)
    (holds : ∀ i (h : i < (e.bytesOf w v).length), b.getPadded (offset + i) = (e.bytesOf w v)[i]) :
    e.read w b offset = .ok (e.wordOf (e.bytesOf w v)) := by
  rw [read_eq fits (by omega), field_of_bytes holds]

/-- Nothing is lost when a word of four bytes is cut to its width. -/
theorem wordOf_of_read32 {e : ByteOrder} {b : Bytes} {offset : Nat} {v : UInt32}
    (fits : offset + 4 ≤ b.size) (addressable : b.size < Bytes.addressLimit)
    (read : e.read32 b offset = .ok v) :
    e.wordOf ((List.range 4).map fun i => b.getPadded (offset + i)) = v.toUInt64 := by
  have whole : e.read32 b offset = .ok (e.wordOf ((List.range 4).map
      fun i => b.getPadded (offset + i))).toUInt32 :=
    congrArg (Except.map UInt64.toUInt32)
      (read_eq (w := .four) fits (Nat.lt_of_le_of_lt fits addressable))
  have same := congrArg UInt32.toNat (Except.ok.inj (whole.symm.trans read))
  have below := e.toNat_wordOf_lt (l := (List.range 4).map fun i => b.getPadded (offset + i))
    (by simp)
  have limit : byteLimit 4 = 4294967296 := rfl
  rw [List.length_map, List.length_range] at below
  rw [UInt64.toNat_toUInt32, Nat.mod_eq_of_lt (by omega)] at same
  exact UInt64.toNat_inj.mp same

end ByteOrder

end ObjectStore
