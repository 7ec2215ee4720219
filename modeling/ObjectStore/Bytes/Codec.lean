import ObjectStore.Bytes.Order

/-
Records of fixed layout. A codec reads a value from an offset and writes it there; composing
codecs lays their fields side by side, in order and without gaps. Padding is a field of its own
that reading skips and writing leaves alone.
-/
namespace ObjectStore

structure Codec (α : Type) where
  size : Nat
  read : ByteOrder → Bytes → Nat → Except DecodeError α
  write : ByteOrder → Nat → α → Encoder Unit

namespace Codec

def word16 : Codec UInt16 where
  size := 2
  read e b offset := e.read16 b offset
  write e offset v := e.put16 offset v

def word32 : Codec UInt32 where
  size := 4
  read e b offset := e.read32 b offset
  write e offset v := e.put32 offset v

def word64 : Codec UInt64 where
  size := 8
  read e b offset := e.read64 b offset
  write e offset v := e.put64 offset v

def raw (n : Nat) : Codec (FixedBytes n) where
  size := n
  read _ b offset := Bytes.fixedSlice b offset n
  write _ offset v := Encoder.write offset v.val

def pad (n : Nat) : Codec Unit where
  size := n
  read _ _ _ := .ok ()
  write _ _ _ := pure ()

def seq (c : Codec α) (d : Codec β) : Codec (α × β) where
  size := c.size + d.size
  read e b offset := do
    let x ← c.read e b offset
    let y ← d.read e b (offset + c.size)
    return (x, y)
  write e offset v := do
    c.write e offset v.1
    d.write e (offset + c.size) v.2

def map (c : Codec α) (view : α → β) (fields : β → α) : Codec β where
  size := c.size
  read e b offset := (c.read e b offset).map view
  write e offset v := c.write e offset (fields v)

/-- A table of `n` equal records; a shorter list is filled up with `blank`. -/
def table (c : Codec α) (blank : α) : Nat → Codec (List α)
  | 0 => ⟨0, fun _ _ _ => .ok [], fun _ _ _ => pure ()⟩
  | n + 1 => (c.seq (table c blank n)).map (fun p => p.1 :: p.2)
      (fun l => (l.headD blank, l.tail))

/-- Decodes the start of a buffer that has to hold the whole record. -/
def decode (c : Codec α) (e : ByteOrder) (b : Bytes) : Except DecodeError α := do
  Bytes.require b c.size
  c.read e b 0

/-- The record alone, its padding zero. -/
def encode (c : Codec α) (e : ByteOrder) (v : α) : Bytes :=
  ((c.write e 0 v).on (Bytes.zeros c.size)).2

end Codec

end ObjectStore
