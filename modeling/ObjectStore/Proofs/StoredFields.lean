import ObjectStore.ObjectMap.Descriptor
import ObjectStore.Proofs.CodecLaws
import ObjectStore.Proofs.Outcomes
import ObjectStore.Tree.Layout

/-
Records read off a buffer byte by byte. Wherever a record of fixed layout fits, reading it gives
the words that lie at the places of its fields.
-/
namespace ObjectStore

namespace ByteOrder

def field16 (e : ByteOrder) (b : Bytes) (place : Nat) : UInt16 := (e.field .two b place).toUInt16
def field32 (e : ByteOrder) (b : Bytes) (place : Nat) : UInt32 := (e.field .four b place).toUInt32
def field64 (e : ByteOrder) (b : Bytes) (place : Nat) : UInt64 := e.field .eight b place

end ByteOrder

namespace Codec

/-- Wherever a record fits, it is read as `value` says. -/
def Shows (c : Codec α) (value : ByteOrder → Bytes → Nat → α) : Prop :=
  ∀ e b offset, offset + c.size ≤ b.size → offset + c.size < Bytes.addressLimit →
    c.read e b offset = .ok (value e b offset)

theorem word16_shows : Shows word16 ByteOrder.field16 := by
  intro e b offset fits addressable
  have read := ByteOrder.read_eq (e := e) (w := .two) fits addressable
  simp only [word16, ByteOrder.read16, read]
  rfl

theorem word32_shows : Shows word32 ByteOrder.field32 := by
  intro e b offset fits addressable
  have read := ByteOrder.read_eq (e := e) (w := .four) fits addressable
  simp only [word32, ByteOrder.read32, read]
  rfl

theorem word64_shows : Shows word64 ByteOrder.field64 := by
  intro e b offset fits addressable
  exact ByteOrder.read_eq (e := e) (w := .eight) fits addressable

theorem Shows.seq {c : Codec α} {d : Codec β} {f : ByteOrder → Bytes → Nat → α}
    {g : ByteOrder → Bytes → Nat → β} (hc : Shows c f) (hd : Shows d g) :
    Shows (c.seq d) fun e b offset => (f e b offset, g e b (offset + c.size)) := by
  intro e b offset fits addressable
  rw [size_seq] at fits addressable
  simp only [Codec.seq, hc e b offset (by omega) (by omega),
    hd e b (offset + c.size) (by omega) (by omega)]
  rfl

theorem Shows.map {c : Codec α} {f : ByteOrder → Bytes → Nat → α} (hc : Shows c f)
    (view : α → β) (fields : β → α) :
    Shows (c.map view fields) fun e b offset => view (f e b offset) := by
  intro e b offset fits addressable
  simp only [Codec.map, hc e b offset fits addressable]
  rfl

/-- Records are decoded from all buffers that are long enough, and from no others. -/
theorem Shows.decode_eq_ok {c : Codec α} {f : ByteOrder → Bytes → Nat → α} (hc : Shows c f)
    (short : c.size < Bytes.addressLimit) {e : ByteOrder} {b : Bytes} {value : α} :
    c.decode e b = .ok value ↔ c.size ≤ b.size ∧ value = f e b 0 := by
  unfold decode
  rw [bind_eq_ok]
  constructor
  · rintro ⟨_, room, read⟩
    have fits := Bytes.require_eq_ok.mp room
    rw [hc e b 0 (by omega) (by omega)] at read
    exact ⟨fits, (Except.ok.inj read).symm⟩
  · rintro ⟨fits, rfl⟩
    exact ⟨(), Bytes.require_eq_ok.mpr fits, hc e b 0 (by omega) (by omega)⟩

end Codec

open Codec

def ObjectHeader.stored (e : ByteOrder) (b : Bytes) (place : Nat) : ObjectHeader where
  checksum := e.field64 b place
  oid := e.field64 b (place + 8)
  xid := e.field64 b (place + 16)
  typeWord := e.field32 b (place + 24)
  subtype := e.field32 b (place + 28)

theorem ObjectHeader.codec_shows : Shows ObjectHeader.codec ObjectHeader.stored :=
  (word64_shows.seq <| word64_shows.seq <| word64_shows.seq <|
    word32_shows.seq word32_shows).map _ _

def MapDescriptor.stored (e : ByteOrder) (b : Bytes) (place : Nat) : MapDescriptor where
  header := ObjectHeader.stored e b place
  flags := e.field32 b (place + 0x20)
  snapshotCount := e.field32 b (place + 0x24)
  treeType := e.field32 b (place + 0x28)
  snapshotTreeType := e.field32 b (place + 0x2C)
  treeOid := e.field64 b (place + 0x30)
  snapshotTreeOid := e.field64 b (place + 0x38)
  mostRecentSnapshot := e.field64 b (place + 0x40)
  pendingRevertMin := e.field64 b (place + 0x48)
  pendingRevertMax := e.field64 b (place + 0x50)

theorem MapDescriptor.codec_shows : Shows MapDescriptor.codec MapDescriptor.stored :=
  (ObjectHeader.codec_shows.seq <| word32_shows.seq <| word32_shows.seq <| word32_shows.seq <|
    word32_shows.seq <| word64_shows.seq <| word64_shows.seq <| word64_shows.seq <|
    word64_shows.seq word64_shows).map _ _

namespace Tree

def Extent.stored (e : ByteOrder) (b : Bytes) (place : Nat) : Extent :=
  ⟨e.field16 b place, e.field16 b (place + 2)⟩

theorem Extent.codec_shows : Shows Extent.codec Extent.stored :=
  (word16_shows.seq word16_shows).map _ _

def NodeHeader.stored (e : ByteOrder) (b : Bytes) (place : Nat) : NodeHeader where
  object := ObjectHeader.stored e b place
  flags := e.field16 b (place + 0x20)
  level := e.field16 b (place + 0x22)
  keyCount := e.field32 b (place + 0x24)
  tableSpace := Extent.stored e b (place + 0x28)
  freeSpace := Extent.stored e b (place + 0x2C)
  keyFreeList := Extent.stored e b (place + 0x30)
  valueFreeList := Extent.stored e b (place + 0x34)

theorem NodeHeader.codec_shows : Shows NodeHeader.codec NodeHeader.stored :=
  (ObjectHeader.codec_shows.seq <| word16_shows.seq <| word16_shows.seq <| word32_shows.seq <|
    Extent.codec_shows.seq <| Extent.codec_shows.seq <| Extent.codec_shows.seq
      Extent.codec_shows).map _ _

def Footer.stored (e : ByteOrder) (b : Bytes) (place : Nat) : Footer where
  flags := e.field32 b place
  nodeSize := e.field32 b (place + 4)
  keySize := e.field32 b (place + 8)
  valueSize := e.field32 b (place + 12)
  longestKey := e.field32 b (place + 16)
  longestValue := e.field32 b (place + 20)
  keyCount := e.field64 b (place + 24)
  nodeCount := e.field64 b (place + 32)

theorem Footer.codec_shows : Shows Footer.codec Footer.stored :=
  (word32_shows.seq <| word32_shows.seq <| word32_shows.seq <| word32_shows.seq <|
    word32_shows.seq <| word32_shows.seq <| word64_shows.seq word64_shows).map _ _

theorem Footer.stored_drop (e : ByteOrder) (b : Bytes) (start : Nat) :
    Footer.stored e (b.drop start) 0 = Footer.stored e b start := by
  simp only [Footer.stored, ByteOrder.field32, ByteOrder.field64, ByteOrder.field_drop,
    Nat.zero_add, Nat.add_zero]

namespace Slot

def stored : (fixed : Bool) → ByteOrder → Bytes → Nat → Slot
  | true, e, b, place => .fixed (e.field16 b place) (e.field16 b (place + 2))
  | false, e, b, place => .variable (Extent.stored e b place) (Extent.stored e b (place + 4))

theorem codec_shows (fixed : Bool) : Shows (codec fixed) (stored fixed) := by
  cases fixed with
  | true => exact (word16_shows.seq word16_shows).map _ _
  | false => exact (Extent.codec_shows.seq Extent.codec_shows).map _ _

theorem stored_extract {fixed : Bool} {e : ByteOrder} {b : Bytes} {start stop place : Nat}
    (fits : start + place + sizeOf fixed ≤ stop) :
    stored fixed e (b.extract start stop) place = stored fixed e b (start + place) := by
  have word : Width.two.bytes = 2 := rfl
  cases fixed with
  | true =>
    have width : sizeOf true = 4 := rfl
    simp only [stored, ByteOrder.field16]
    rw [ByteOrder.field_extract (by omega), ByteOrder.field_extract (by omega), Nat.add_assoc]
  | false =>
    have width : sizeOf false = 8 := rfl
    simp only [stored, Extent.stored, ByteOrder.field16]
    rw [ByteOrder.field_extract (by omega), ByteOrder.field_extract (by omega),
      ByteOrder.field_extract (by omega), ByteOrder.field_extract (by omega)]
    simp only [Nat.add_assoc]

end Slot

end Tree

end ObjectStore
