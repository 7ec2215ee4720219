/-
Byte buffers, and why a run of bytes is not the structure it was read as. Offsets and lengths are
unbounded `Nat`, counted from the start of the buffer; a range whose end leaves the 64-bit address
space is refused as an overflow before its bounds are looked at.
-/
namespace ObjectStore

/-- Hexadecimal numerals are lower case, without leading zeros, behind `0x`. -/
def hexText (n : Nat) : String := "0x" ++ String.ofList (Nat.toDigits 16 n)

inductive DecodeError where
  | insufficientData (needed offset actual : Nat)
  | invalidMagic (expected actual : UInt64)
  | invalidField (field reason : String)
  | integerConversion (field : String)
  deriving DecidableEq, Repr

def DecodeError.message : DecodeError → String
  | .insufficientData needed offset actual =>
      s!"insufficient data: need {needed} bytes at offset {offset}, got {actual}"
  | .invalidMagic expected actual =>
      s!"invalid magic: expected {hexText expected.toNat}, got {hexText actual.toNat}"
  | .invalidField field reason => s!"invalid field: {field} ({reason})"
  | .integerConversion field => s!"integer conversion failed: {field}"

abbrev Bytes := ByteArray

instance : DecidableEq Bytes := fun a b =>
  decidable_of_iff (a.data = b.data) ⟨ByteArray.ext, congrArg ByteArray.data⟩

namespace Bytes

def zeros (n : Nat) : Bytes := ⟨Array.replicate n 0⟩

/-- Addresses are 64-bit words. -/
def addressLimit : Nat := UInt64.size

/-- A buffer takes up less than half of the addresses. -/
def bufferLimit : Nat := addressLimit / 2

theorem addressable_of_buffer {n : Nat} (held : n < bufferLimit) : n < addressLimit :=
  Nat.lt_of_lt_of_le held (Nat.div_le_self _ _)

/-- What is wrong with the range of `len` bytes from `offset` in a buffer of `size` bytes. -/
def rangeError? (size offset len : Nat) : Option DecodeError :=
  if addressLimit ≤ offset + len then some (.invalidField "offset" "overflow")
  else if size < offset + len then some (.insufficientData len offset (size - offset))
  else none

def slice (b : Bytes) (offset len : Nat) : Except DecodeError Bytes :=
  match rangeError? b.size offset len with
  | some e => .error e
  | none => .ok (b.extract offset (offset + len))

theorem rangeError?_eq_none {size offset len : Nat} (h : rangeError? size offset len = none) :
    offset + len ≤ size := by
  unfold rangeError? at h
  split at h
  · simp at h
  · split at h
    · simp at h
    · omega

/-- Replaces the bytes from `offset` on by `new`, which the caller knows to fit. -/
def overwrite (b : Bytes) (offset : Nat) (new : Bytes) : Bytes :=
  new.copySlice 0 b offset new.size

/-- The byte at `i`, and zero past the end. -/
def getPadded (b : Bytes) (i : Nat) : UInt8 := if h : i < b.size then b[i] else 0

def ofList (l : List UInt8) : Bytes := l.toByteArray

/-- The bytes from `offset` on, none when it lies past the end. -/
def drop (b : Bytes) (offset : Nat) : Bytes := b.extract offset b.size

/-- Fails with the whole of `needed` missing when the buffer is shorter. -/
def require (b : Bytes) (needed : Nat) : Except DecodeError Unit :=
  if b.size < needed then .error (.insufficientData needed 0 b.size) else .ok ()

end Bytes

abbrev FixedBytes (n : Nat) := { b : Bytes // b.size = n }

namespace Bytes

def fixedSlice (b : Bytes) (offset n : Nat) : Except DecodeError (FixedBytes n) :=
  match h : rangeError? b.size offset n with
  | some e => .error e
  | none => .ok ⟨b.extract offset (offset + n), by
      have := rangeError?_eq_none h
      rw [ByteArray.size_extract]
      omega⟩

/-- The bytes given when they are `n`, and zeros otherwise. -/
def fixed (n : Nat) (b : Bytes) : FixedBytes n :=
  if h : b.size = n then ⟨b, h⟩ else ⟨zeros n, by simp [zeros, ByteArray.size]⟩

end Bytes

/-- Writing into one buffer: an error keeps what was written before it. -/
abbrev Encoder := ExceptT DecodeError (StateM Bytes)

namespace Encoder

/-- Replaces `new.size` bytes at `offset`; a range that does not fit leaves the buffer as it is. -/
def write (offset : Nat) (new : Bytes) : Encoder Unit := fun b =>
  match Bytes.rangeError? b.size offset new.size with
  | some e => (.error e, b)
  | none => (.ok (), b.overwrite offset new)

def on (w : Encoder Unit) (b : Bytes) : Except DecodeError Unit × Bytes := w b

def apply (w : Encoder Unit) (b : Bytes) : Except DecodeError Bytes :=
  match w.on b with
  | (.ok (), out) => .ok out
  | (.error e, _) => .error e

end Encoder

end ObjectStore
