import ObjectStore.Object.Header
import ObjectStore.StoreError

/-
Fletcher's checksum over 32-bit words, with both sums taken modulo 2^32 - 1 and two check words
chosen to bring the sums of the extended data to zero. An object stores it over everything
behind the checksum field.
-/
namespace ObjectStore

namespace Fletcher

def modulus : UInt64 := 0xFFFFFFFF

/-- The data as words; a partial last word is filled up with zero bytes. -/
def words (e : ByteOrder) (b : Bytes) : List UInt64 :=
  (List.range ((b.size + 3) / 4)).map fun i =>
    e.wordOf [b.getPadded (4 * i), b.getPadded (4 * i + 1), b.getPadded (4 * i + 2),
      b.getPadded (4 * i + 3)]

structure Sums where
  plain : UInt64
  running : UInt64
  deriving DecidableEq, Repr

def Sums.add (s : Sums) (word : UInt64) : Sums :=
  let plain := (s.plain + word) % modulus
  ⟨plain, (s.running + plain) % modulus⟩

def sums (ws : List UInt64) : Sums := ws.foldl Sums.add ⟨0, 0⟩

def Sums.low (s : Sums) : UInt64 := modulus - (s.plain + s.running) % modulus

def Sums.high (s : Sums) : UInt64 := modulus - (s.plain + s.low) % modulus

def checksum (e : ByteOrder) (b : Bytes) : UInt64 :=
  let s := sums (words e b)
  (s.high <<< 32) ||| s.low

end Fletcher

namespace Object

/-- Bytes taken by the checksum field, which the checksum does not cover. -/
def checksumSize : Nat := 8

def checksum (e : ByteOrder) (object : Bytes) : Except DecodeError UInt64 := do
  Bytes.require object ObjectHeader.size
  return Fletcher.checksum e (object.drop checksumSize)

/-- An object too short for a header does not verify. -/
def verifies (e : ByteOrder) (object : Bytes) : Bool :=
  match checksum e object, e.read64 object 0 with
  | .ok computed, .ok stored => stored == computed
  | _, _ => false

def writeChecksum (e : ByteOrder) : Encoder Unit := fun object =>
  match checksum e object with
  | .error err => (.error err, object)
  | .ok c => e.put64 0 c object

def verify [Monad m] [MonadExceptOf StoreError m] (e : ByteOrder) (object : Bytes)
    (block : BlockAddress) (what : String) : m Unit :=
  if verifies e object then pure ()
  else throw (.corrupt block s!"{what} checksum mismatch")

end Object

end ObjectStore
