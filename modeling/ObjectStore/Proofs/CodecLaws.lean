import ObjectStore.Bytes.Codec
import ObjectStore.Proofs.Words

/-
What makes a codec lawful, and that laying lawful codecs side by side gives a lawful one. What
is read back may be a filled-up form of what was written, as it is of a table.
-/
namespace ObjectStore

structure Bytes.SameAt (b : Bytes) (offset : Nat) (b' : Bytes) (offset' n : Nat) : Prop where
  fits : offset + n ≤ b.size
  fits' : offset' + n ≤ b'.size
  addressable : b.size < Bytes.addressLimit
  addressable' : b'.size < Bytes.addressLimit
  same : ∀ i, i < n → b.getPadded (offset + i) = b'.getPadded (offset' + i)

namespace Bytes.SameAt

variable {b b' : Bytes} {offset offset' n : Nat}

theorem left {m : Nat} (h : SameAt b offset b' offset' (m + n)) :
    SameAt b offset b' offset' m where
  fits := by have := h.fits; omega
  fits' := by have := h.fits'; omega
  addressable := h.addressable
  addressable' := h.addressable'
  same i lt := h.same i (by omega)

theorem right {m : Nat} (h : SameAt b offset b' offset' (m + n)) :
    SameAt b (offset + m) b' (offset' + m) n where
  fits := by have := h.fits; omega
  fits' := by have := h.fits'; omega
  addressable := h.addressable
  addressable' := h.addressable'
  same i lt := by
    have at_i := h.same (m + i) (by omega)
    rwa [← Nat.add_assoc, ← Nat.add_assoc] at at_i

end Bytes.SameAt

namespace Encoder

theorem on_pure (b : Bytes) : (pure () : Encoder Unit).on b = (.ok (), b) := rfl

theorem on_bind_ok {w : Encoder Unit} (next : Unit → Encoder Unit) {b b' : Bytes}
    (first : w.on b = (.ok (), b')) : (w >>= next).on b = (next ()).on b' := by
  have step : (w >>= next).on b = ExceptT.bindCont next (w.on b).1 (w.on b).2 := rfl
  rw [step, first]
  rfl

theorem on_bind_eq_ok {w : Encoder Unit} {next : Unit → Encoder Unit} {b b' : Bytes}
    (run : (w >>= next).on b = (.ok (), b')) :
    ∃ mid, w.on b = (.ok (), mid) ∧ (next ()).on mid = (.ok (), b') := by
  have step : (w >>= next).on b = ExceptT.bindCont next (w.on b).1 (w.on b).2 := rfl
  rw [step] at run
  rcases first : w.on b with ⟨e | _, mid⟩
  · rw [first] at run
    cases run
  · rw [first] at run
    exact ⟨mid, rfl, run⟩

theorem on_write_of_inside {b new : Bytes} {offset : Nat}
    (inside : Bytes.rangeError? b.size offset new.size = none) :
    (write offset new).on b = (.ok (), b.overwrite offset new) := by
  rw [on, write, inside]

theorem on_write_of_outside {b new : Bytes} {offset : Nat} {err : DecodeError}
    (outside : Bytes.rangeError? b.size offset new.size = some err) :
    (write offset new).on b = (.error err, b) := by
  rw [on, write, outside]

theorem on_write_of_fits {b new : Bytes} {offset : Nat} (fits : offset + new.size ≤ b.size)
    (addressable : offset + new.size < Bytes.addressLimit) :
    (write offset new).on b = (.ok (), b.overwrite offset new) :=
  on_write_of_inside (Bytes.rangeError?_of_fits fits addressable)

theorem size_on_write (offset : Nat) (new b : Bytes) :
    ((write offset new).on b).2.size = b.size := by
  cases looked : Bytes.rangeError? b.size offset new.size with
  | none =>
    rw [on_write_of_inside looked]
    exact Bytes.size_overwrite (Bytes.rangeError?_eq_none looked)
  | some err => rw [on_write_of_outside looked]

end Encoder

/-- A writer that fits in its `n` bytes from `offset` and leaves all others as they are. -/
structure Encoder.WritesWithin (w : Encoder Unit) (offset n : Nat) (b b' : Bytes) : Prop where
  done : w.on b = (.ok (), b')
  size_eq : b'.size = b.size
  outside : ∀ i, i < offset ∨ offset + n ≤ i → b'.getPadded i = b.getPadded i

namespace Codec

structure Lawful (c : Codec α) (back : α → α) : Prop where
  same_bytes : ∀ {e : ByteOrder} {b b' : Bytes} {offset offset' : Nat},
    Bytes.SameAt b offset b' offset' c.size → c.read e b offset = c.read e b' offset'
  write_read : ∀ (e : ByteOrder) (offset : Nat) (v : α) {b : Bytes},
    offset + c.size ≤ b.size → b.size < Bytes.addressLimit →
    ∃ b', (c.write e offset v).WritesWithin offset c.size b b' ∧
      c.read e b' offset = .ok (back v)

theorem word64_eq : word64 = ⟨Width.eight.bytes,
    fun e b offset => (e.read .eight b offset).map id,
    fun e offset v => e.put .eight offset (id v)⟩ := by
  simp only [word64, ByteOrder.read64, ByteOrder.put64, id]
  congr
  funext e b offset
  cases e.read .eight b offset <;> rfl

theorem Lawful.seq {c : Codec α} {d : Codec β} {f : α → α} {g : β → β} (hc : Lawful c f)
    (hd : Lawful d g) : Lawful (c.seq d) (Prod.map f g) where
  same_bytes {e b b' offset offset'} h := by
    have left := hc.same_bytes (e := e) h.left
    have right := hd.same_bytes (e := e) h.right
    simp only [Codec.seq, left, right]
  write_read e offset v b fits addressable := by
    dsimp only [Codec.seq] at fits ⊢
    obtain ⟨b₁, first, read₁⟩ := hc.write_read e offset v.1 (b := b) (by omega) addressable
    obtain ⟨b₂, second, read₂⟩ := hd.write_read e (offset + c.size) v.2 (b := b₁)
      (by rw [first.size_eq]; omega) (by rw [first.size_eq]; exact addressable)
    have kept : Bytes.SameAt b₂ offset b₁ offset c.size := by
      have size₁ := first.size_eq
      have size₂ := second.size_eq
      exact ⟨by omega, by omega, by omega, by omega,
        fun i lt => second.outside _ (by omega)⟩
    refine ⟨b₂, ⟨?_, ?_, ?_⟩, ?_⟩
    · rw [Encoder.on_bind_ok _ first.done]
      exact second.done
    · rw [second.size_eq, first.size_eq]
    · intro i outside
      rw [second.outside i (by omega), first.outside i (by omega)]
    · rw [hc.same_bytes kept, read₁, read₂]
      rfl

/-- A list filled up with `blank` to `n` elements, or cut to as many. -/
def filled (blank : α) : Nat → List α → List α
  | 0, _ => []
  | n + 1, l => l.headD blank :: filled blank n l.tail

theorem size_seq (c : Codec α) (d : Codec β) : (c.seq d).size = c.size + d.size := rfl

theorem size_table (c : Codec α) (blank : α) (n : Nat) : (c.table blank n).size = n * c.size := by
  induction n with
  | zero => rw [Nat.zero_mul]; rfl
  | succ n ih =>
    have step : (c.table blank (n + 1)).size = c.size + (c.table blank n).size := rfl
    rw [step, ih, Nat.add_mul, Nat.one_mul, Nat.add_comm]

theorem Lawful.congr {c : Codec α} {f g : α → α} (h : Lawful c f) (same : ∀ v, f v = g v) :
    Lawful c g := by
  have : f = g := funext same
  rwa [← this]

theorem Lawful.read_encode {c : Codec α} {f : α → α} (h : Lawful c f)
    (addressable : c.size < Bytes.addressLimit) (e : ByteOrder) (v : α) :
    (c.encode e v).size = c.size ∧ c.read e (c.encode e v) 0 = .ok (f v) := by
  have size_eq := Bytes.size_zeros c.size
  obtain ⟨b, written, read⟩ := h.write_read e 0 v (b := Bytes.zeros c.size)
    (by omega) (by omega)
  have same : c.encode e v = b := by rw [encode, written.done]
  rw [same]
  exact ⟨written.size_eq.trans size_eq, read⟩

theorem Lawful.read_at {c : Codec α} {f : α → α} (h : Lawful c f)
    (addressable : c.size < Bytes.addressLimit) {e : ByteOrder} {v : α} {b : Bytes} {offset : Nat}
    (fits : offset + c.size ≤ b.size) (addressable' : b.size < Bytes.addressLimit)
    (holds : ∀ i, i < c.size → b.getPadded (offset + i) = (c.encode e v).getPadded i) :
    c.read e b offset = .ok (f v) := by
  obtain ⟨size_eq, read⟩ := h.read_encode addressable e v
  rw [← read]
  exact h.same_bytes ⟨fits, by omega, addressable', by omega, fun i lt => by
    rw [holds i lt, Nat.zero_add]⟩

end Codec

end ObjectStore
