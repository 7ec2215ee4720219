import ObjectStore.Proofs.Words

/-
Words put and read in either byte order. In the order in which it was not stored a word comes out
with its bytes reversed.
-/
namespace ObjectStore

/-- The number whose lowest `n` bytes are those of `v` in reverse. -/
def byteReversal : Nat → Nat → Nat
  | 0, _ => 0
  | n + 1, v => v % 256 * byteLimit n + byteReversal n (v / 256)

theorem toNat_ofLittleBytes_concat {l : List UInt8} (short : l.length ≤ 7) (b : UInt8) :
    (ofLittleBytes (l ++ [b])).toNat
      = (ofLittleBytes l).toNat + b.toNat * byteLimit l.length := by
  induction l with
  | nil =>
    rw [List.nil_append, toNat_ofLittleBytes_cons (by decide)]
    simp [ofLittleBytes, byteLimit]
  | cons c rest ih =>
    rw [List.length_cons] at short
    have longer := toNat_ofLittleBytes_lt (l := rest ++ [b]) (by simp; omega)
    have shorter := toNat_ofLittleBytes_lt (l := rest) (by omega)
    have limit := byteLimit_le (show rest.length ≤ 7 by omega)
    have limit' := byteLimit_le (show (rest ++ [b]).length ≤ 7 by simp; omega)
    rw [List.cons_append, toNat_ofLittleBytes_cons (by omega), ih (by omega),
      toNat_ofLittleBytes_cons (by omega), List.length_cons, byteLimit, Nat.mul_add,
      Nat.mul_left_comm, Nat.add_assoc]

theorem toNat_ofLittleBytes_reverse {n : Nat} (width : n ≤ 8) (v : UInt64) :
    (ofLittleBytes (littleBytes n v).reverse).toNat = byteReversal n v.toNat := by
  induction n generalizing v with
  | zero => rfl
  | succ n ih =>
    have low : v.toUInt8.toNat = v.toNat % 256 := UInt64.toNat_toUInt8 v
    have length_eq : (littleBytes n (v >>> 8)).reverse.length = n := by
      rw [List.length_reverse, length_littleBytes]
    rw [littleBytes, List.reverse_cons, toNat_ofLittleBytes_concat (by omega), length_eq,
      ih (by omega), low, toNat_shiftRight_eight, byteReversal, Nat.add_comm]

example : byteReversal 4 0x11223344 = 0x44332211 := rfl

namespace ByteOrder

def other : ByteOrder → ByteOrder
  | .little => .big
  | .big => .little

theorem toNat_wordOf_other (e : ByteOrder) (w : Width) (v : UInt64) :
    (e.other.wordOf (e.bytesOf w v)).toNat = byteReversal w.bytes v.toNat := by
  cases e <;> exact toNat_ofLittleBytes_reverse w.bytes_le v

def readWord (e : ByteOrder) : (w : Width) → Bytes → Nat → Except DecodeError w.Word
  | .two => e.read16
  | .four => e.read32
  | .eight => e.read64

def putWord (e : ByteOrder) : (w : Width) → Nat → w.Word → Encoder Unit
  | .two => e.put16
  | .four => e.put32
  | .eight => e.put64

theorem readWord_eq (e : ByteOrder) (w : Width) (b : Bytes) (offset : Nat) :
    e.readWord w b offset = (e.read w b offset).map w.narrow := by
  cases w with
  | two => rfl
  | four => rfl
  | eight =>
    change e.read .eight b offset = (e.read .eight b offset).map id
    cases e.read .eight b offset <;> rfl

theorem putWord_eq (e : ByteOrder) (w : Width) (offset : Nat) (v : w.Word) :
    e.putWord w offset v = e.put w offset (w.widen v) := by
  cases w <;> rfl

theorem number_wordOf_other (e : ByteOrder) (w : Width) (v : w.Word) :
    w.number (w.narrow (e.other.wordOf (e.bytesOf w (w.widen v))))
      = byteReversal w.bytes (w.number v) := by
  have below := e.other.toNat_wordOf_lt (l := e.bytesOf w (w.widen v))
    (by rw [length_bytesOf]; exact w.bytes_le)
  rw [length_bytesOf] at below
  rw [w.number_narrow, Nat.mod_eq_of_lt below, toNat_wordOf_other, Width.number]

end ByteOrder

end ObjectStore
