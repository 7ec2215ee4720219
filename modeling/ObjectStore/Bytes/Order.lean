import ObjectStore.Bytes

/-
The two byte orders of stored words. A word is read and written at one of three widths, always
as the low bytes of a 64-bit value.
-/
namespace ObjectStore

/-- The low `n` bytes of a word, least significant first. -/
def littleBytes : Nat → UInt64 → List UInt8
  | 0, _ => []
  | n + 1, v => v.toUInt8 :: littleBytes n (v >>> 8)

/-- The word whose bytes, least significant first, are given. -/
def ofLittleBytes : List UInt8 → UInt64
  | [] => 0
  | b :: rest => b.toUInt64 ||| (ofLittleBytes rest <<< 8)

inductive Width where
  | two
  | four
  | eight
  deriving DecidableEq, Repr

def Width.bytes : Width → Nat
  | .two => 2
  | .four => 4
  | .eight => 8

inductive ByteOrder where
  | little
  | big
  deriving DecidableEq, Repr

/-- The magic number of a container superblock: `NXSB` when stored in the little order. -/
def containerMagic : UInt32 := 0x4253584E

namespace ByteOrder

def bytesOf (e : ByteOrder) (w : Width) (v : UInt64) : List UInt8 :=
  match e with
  | .little => littleBytes w.bytes v
  | .big => (littleBytes w.bytes v).reverse

def wordOf (e : ByteOrder) (stored : List UInt8) : UInt64 :=
  match e with
  | .little => ofLittleBytes stored
  | .big => ofLittleBytes stored.reverse

def read (e : ByteOrder) (w : Width) (b : Bytes) (offset : Nat) : Except DecodeError UInt64 :=
  match Bytes.rangeError? b.size offset w.bytes with
  | some err => .error err
  | none => .ok (e.wordOf ((List.range w.bytes).map fun i => b.getPadded (offset + i)))

def read16 (e : ByteOrder) (b : Bytes) (offset : Nat) : Except DecodeError UInt16 :=
  (e.read .two b offset).map UInt64.toUInt16

def read32 (e : ByteOrder) (b : Bytes) (offset : Nat) : Except DecodeError UInt32 :=
  (e.read .four b offset).map UInt64.toUInt32

def read64 (e : ByteOrder) (b : Bytes) (offset : Nat) : Except DecodeError UInt64 :=
  e.read .eight b offset

def put (e : ByteOrder) (w : Width) (offset : Nat) (v : UInt64) : Encoder Unit :=
  Encoder.write offset (Bytes.ofList (e.bytesOf w v))

def put16 (e : ByteOrder) (offset : Nat) (v : UInt16) : Encoder Unit :=
  e.put .two offset v.toUInt64

def put32 (e : ByteOrder) (offset : Nat) (v : UInt32) : Encoder Unit :=
  e.put .four offset v.toUInt64

def put64 (e : ByteOrder) (offset : Nat) (v : UInt64) : Encoder Unit :=
  e.put .eight offset v

/-- The order in which four stored bytes spell the container magic. -/
def ofMagic? (magic : List UInt8) : Option ByteOrder :=
  if wordOf .little magic = containerMagic.toUInt64 then some .little
  else if wordOf .big magic = containerMagic.toUInt64 then some .big
  else none

end ByteOrder

end ObjectStore
