import ObjectStore.Proofs.CheckedNodes

/-
What a parsed node delimits. Its slots lie in the table, its keys are cut out forwards from the
end of the table and its values backwards from the end of the values; whatever is cut out keeps
clear of the headers, of the table and of the footer of a root.
-/
namespace ObjectStore

namespace Tree

namespace Slot

/-- The offset and the length of a key. A fixed slot leaves the length to the tree. -/
inductive KeyAt : Slot → Option EntrySizes → Nat → Nat → Prop
  | variable (key value : Extent) (sizes : Option EntrySizes) :
      KeyAt (.variable key value) sizes key.off.toNat key.len.toNat
  | fixed (key value : UInt16) (sizes : EntrySizes) :
      KeyAt (.fixed key value) (some sizes) key.toNat sizes.key.toNat

/-- The offset and the length of a value. In an index node with fixed slots it is a pointer. -/
inductive ValueAt : Slot → Option EntrySizes → (leaf : Bool) → UInt16 → Nat → Prop
  | variable (key value : Extent) (sizes : Option EntrySizes) (leaf : Bool) :
      ValueAt (.variable key value) sizes leaf value.off value.len.toNat
  | leaf (key value : UInt16) (sizes : EntrySizes) :
      ValueAt (.fixed key value) (some sizes) true value sizes.value.toNat
  | index (key value : UInt16) (sizes : EntrySizes) :
      ValueAt (.fixed key value) (some sizes) false value 8

variable {slot : Slot} {sizes : Option EntrySizes} {leaf : Bool}

theorem keyRange_eq_ok {off len : Nat} :
    slot.keyRange sizes = .ok (off, len) ↔ slot.KeyAt sizes off len := by
  constructor
  · intro range
    cases slot with
    | «variable» key value =>
      cases range
      constructor
    | fixed key value =>
      cases sizes with
      | none => cases range
      | some own =>
        cases range
        constructor
  · intro range
    cases range <;> rfl

theorem valueRange_eq_ok {off : UInt16} {len : Nat} :
    slot.valueRange sizes leaf = .ok (off, len) ↔ slot.ValueAt sizes leaf off len := by
  constructor
  · intro range
    cases slot with
    | «variable» key value =>
      cases range
      constructor
    | fixed key value =>
      cases sizes with
      | none => cases range
      | some own => cases leaf <;> cases range <;> constructor
  · intro range
    cases range <;> rfl

end Slot

namespace Node

def storedSlot (n : Node) (index : Nat) : Slot :=
  Slot.stored n.isFixed n.order n.bytes (n.tableStart + index * Slot.sizeOf n.isFixed)

/-- The bytes of the headers, of the table and of the footer of a root. -/
inductive Reserved (n : Node) (place : Nat) : Prop
  | header (before : place < 56)
  | table (from_start : n.tableStart ≤ place) (before_keys : place < n.keyStart)
  | footer (root : n.isRoot = true) (in_footer : n.bytes.size - 40 ≤ place)

/-- A piece of `len` bytes of the block of a node, none of which is reserved. -/
structure CutAt (n : Node) (start len : Nat) (piece : Bytes) : Prop where
  piece_eq : piece = n.bytes.extract start (start + len)
  size_eq : piece.size = len
  inside : start + len ≤ n.bytes.size
  unreserved : ∀ place, start ≤ place → place < start + len → ¬n.Reserved place

/-- What can be read of the entries of a node, and where it lies. -/
structure Delimits (n : Node) : Prop where
  slot_iff : ∀ index slot, n.slot index = .ok slot ↔ index < n.keyCount ∧ slot = n.storedSlot index
  key_iff : ∀ sizes index key, n.key sizes index = .ok key ↔
    index < n.keyCount ∧ ∃ off len, (n.storedSlot index).KeyAt sizes off len ∧
      n.keyStart + off + len ≤ n.valueEnd ∧
      key = n.bytes.extract (n.keyStart + off) (n.keyStart + off + len)
  value_iff : ∀ sizes index value, n.value sizes index = .ok value ↔
    index < n.keyCount ∧ ∃ off len, (n.storedSlot index).ValueAt sizes n.isLeaf off len ∧
      (off = 0xFFFF ∧ value = ByteArray.empty ∨ off ≠ 0xFFFF ∧ off.toNat ≤ n.valueEnd ∧
        n.keyStart ≤ n.valueEnd - off.toNat ∧ len ≤ off.toNat ∧
        value = n.bytes.extract (n.valueEnd - off.toNat) (n.valueEnd - off.toNat + len))
  key_cut : ∀ sizes index key, n.key sizes index = .ok key → ∃ off len,
    (n.storedSlot index).KeyAt sizes off len ∧ n.CutAt (n.keyStart + off) len key
  value_cut : ∀ sizes index value, n.value sizes index = .ok value → value = ByteArray.empty ∨
    ∃ off len, (n.storedSlot index).ValueAt sizes n.isLeaf off len ∧
      n.CutAt (n.valueEnd - off.toNat) len value

variable {n : Node}

theorem not_reserved {place : Nat} (from_keys : n.keyStart ≤ place)
    (in_values : place < n.valueEnd) : ¬n.Reserved place := by
  have front : NodeHeader.size ≤ n.tableStart := Nat.le_add_right _ _
  have before := n.tableStart_le
  have own : NodeHeader.size = 56 := rfl
  intro reserved
  cases reserved with
  | header => omega
  | table => omega
  | footer root in_footer =>
    have ends : n.valueEnd = n.bytes.size - 40 := if_pos root
    omega

theorem cutAt {start len : Nat} (from_keys : n.keyStart ≤ start)
    (in_values : start + len ≤ n.valueEnd) :
    n.CutAt start len (n.bytes.extract start (start + len)) := by
  have held := n.valueEnd_le
  constructor
  case piece_eq => rfl
  case size_eq => rw [Bytes.size_extract_of_le (by omega), Nat.add_sub_cancel_left]
  case inside => omega
  case unreserved =>
    intro place from_start before_stop
    exact not_reserved (by omega) (by omega)

theorem slot_eq_ok (areas : n.Areas) {index : Nat} {slot : Slot} :
    n.slot index = .ok slot ↔ index < n.keyCount ∧ slot = n.storedSlot index := by
  have before := n.tableStart_le
  have held := n.valueEnd_le
  have keys_le := areas.keys_le
  have short := n.keyStart_lt
  have limit : Bytes.addressLimit = 18446744073709551616 := rfl
  have table_len : n.keyStart = n.tableStart + n.header.tableSpace.len.toNat := rfl
  have table_size : n.table.size = n.keyStart - n.tableStart :=
    Bytes.size_extract_of_le (by omega)
  unfold Node.slot
  by_cases listed : index < n.keyCount
  · have holds : (index + 1) * Slot.sizeOf n.isFixed ≤ n.header.tableSpace.len.toNat :=
      Nat.le_trans (Nat.mul_le_mul_right _ listed) areas.table_holds
    rw [Nat.add_mul, Nat.one_mul] at holds
    have width := Slot.size_codec n.isFixed
    have read := Slot.codec_shows n.isFixed n.order n.table (index * Slot.sizeOf n.isFixed)
      (by omega) (by omega)
    have stored : Slot.stored n.isFixed n.order n.table (index * Slot.sizeOf n.isFixed)
        = n.storedSlot index := Slot.stored_extract (by omega)
    rw [if_pos listed, read, stored]
    constructor
    · intro same
      exact ⟨listed, (Except.ok.inj same).symm⟩
    · intro both
      rw [both.2]
  · rw [if_neg listed]
    constructor
    · intro same
      cases same
    · intro both
      exact absurd both.1 listed

theorem key_eq_ok (areas : n.Areas) {sizes : Option EntrySizes} {index : Nat} {key : Bytes} :
    n.key sizes index = .ok key ↔
      index < n.keyCount ∧ ∃ off len, (n.storedSlot index).KeyAt sizes off len ∧
        n.keyStart + off + len ≤ n.valueEnd ∧
        key = n.bytes.extract (n.keyStart + off) (n.keyStart + off + len) := by
  have held := n.valueEnd_le
  unfold Node.key
  constructor
  · intro read
    obtain ⟨slot, slot_read, read⟩ := bind_eq_ok.mp read
    obtain ⟨listed, rfl⟩ := (slot_eq_ok areas).mp slot_read
    obtain ⟨⟨off, len⟩, range, read⟩ := bind_eq_ok.mp read
    obtain ⟨in_block, read⟩ := checked_eq_ok.mp read
    obtain ⟨in_area, read⟩ := checked_eq_ok.mp read
    cases read
    exact ⟨listed, off, len, Slot.keyRange_eq_ok.mp range, by omega, rfl⟩
  · rintro ⟨listed, off, len, range, in_area, rfl⟩
    rw [(slot_eq_ok areas).mpr ⟨listed, rfl⟩, ok_bind, Slot.keyRange_eq_ok.mpr range, ok_bind]
    exact checked_eq_ok.mpr ⟨by omega, checked_eq_ok.mpr ⟨by omega, rfl⟩⟩

theorem value_eq_ok (areas : n.Areas) {sizes : Option EntrySizes} {index : Nat} {value : Bytes} :
    n.value sizes index = .ok value ↔
      index < n.keyCount ∧ ∃ off len, (n.storedSlot index).ValueAt sizes n.isLeaf off len ∧
        (off = 0xFFFF ∧ value = ByteArray.empty ∨ off ≠ 0xFFFF ∧ off.toNat ≤ n.valueEnd ∧
          n.keyStart ≤ n.valueEnd - off.toNat ∧ len ≤ off.toNat ∧
          value = n.bytes.extract (n.valueEnd - off.toNat) (n.valueEnd - off.toNat + len)) := by
  have held := n.valueEnd_le
  unfold Node.value
  constructor
  · intro read
    obtain ⟨slot, slot_read, read⟩ := bind_eq_ok.mp read
    obtain ⟨listed, rfl⟩ := (slot_eq_ok areas).mp slot_read
    obtain ⟨⟨off, len⟩, range, read⟩ := bind_eq_ok.mp read
    refine ⟨listed, off, len, Slot.valueRange_eq_ok.mp range, ?_⟩
    by_cases none_there : off = Slot.noValue
    · simp only [if_pos none_there] at read
      exact .inl ⟨none_there, (Except.ok.inj read).symm⟩
    · simp only [if_neg none_there] at read
      obtain ⟨in_node, read⟩ := checked_eq_ok.mp read
      obtain ⟨in_block, read⟩ := checked_eq_ok.mp read
      obtain ⟨in_area, read⟩ := checked_eq_ok.mp read
      cases read
      exact .inr ⟨none_there, by omega, by omega, by omega, rfl⟩
  · rintro ⟨listed, off, len, range, found⟩
    rw [(slot_eq_ok areas).mpr ⟨listed, rfl⟩, ok_bind, Slot.valueRange_eq_ok.mpr range, ok_bind]
    rcases found with ⟨none_there, rfl⟩ | ⟨present, in_node, from_keys, in_values, rfl⟩
    · exact if_pos none_there
    · have stored : ¬off = Slot.noValue := present
      dsimp only
      rw [if_neg stored]
      exact checked_eq_ok.mpr ⟨by omega, checked_eq_ok.mpr ⟨by omega,
        checked_eq_ok.mpr ⟨by omega, rfl⟩⟩⟩

theorem delimits (areas : n.Areas) : n.Delimits := by
  constructor
  case slot_iff => exact fun index slot => slot_eq_ok areas
  case key_iff => exact fun sizes index key => key_eq_ok areas
  case value_iff => exact fun sizes index value => value_eq_ok areas
  case key_cut =>
    intro sizes index key read
    obtain ⟨-, off, len, range, in_area, rfl⟩ := (key_eq_ok areas).mp read
    exact ⟨off, len, range, cutAt (by omega) in_area⟩
  case value_cut =>
    intro sizes index value read
    obtain ⟨-, off, len, range, found⟩ := (value_eq_ok areas).mp read
    rcases found with ⟨-, none_there⟩ | ⟨-, in_node, from_keys, in_values, rfl⟩
    · exact .inl none_there
    · exact .inr ⟨off, len, range, cutAt from_keys (by omega)⟩

/-- Which blocks are parsed, what the node then holds, and what is read of its entries. -/
theorem parse_delimits (e : ByteOrder) (b : Bytes) :
    ((∃ n, Node.parse e b = .ok n) ↔ (NodeHeader.stored e b 0).Fits b.size) ∧
      ∀ n, Node.parse e b = .ok n → n.Holds e b ∧ n.Delimits := by
  refine ⟨parses_iff e b, ?_⟩
  intro n parsed
  exact ⟨(parse_eq_ok.mp parsed).2, delimits (areas_of_parse parsed)⟩

def twoEntries : Node where
  order := .big
  bytes := ⟨#[0, 0, 0, 0, 0, 0, 0, 0, 0, 0, 0, 0, 0, 0, 0, 0,
    0, 0, 0, 0, 0, 0, 0, 0, 0, 0, 0, 0, 0, 0, 0, 0,
    0, 3, 0, 0, 0, 0, 0, 2, 0, 0, 0, 16, 0, 3, 0, 0, 0xFF, 0xFF, 0, 0, 0xFF, 0xFF, 0, 0,
    0, 0, 0, 2, 0, 4, 0, 4, 0, 2, 0, 1, 0xFF, 0xFF, 0, 9, 21, 22, 23, 31, 32, 33, 34,
    0, 0, 0, 0, 0, 0, 0, 0, 0, 0, 0, 0, 0, 0, 0, 0, 0, 0, 0, 0,
    0, 0, 0, 0, 0, 0, 0, 0, 0, 0, 0, 0, 0, 0, 0, 0, 0, 0, 0, 0]⟩
  header := ⟨⟨0, 0, 0, 0, 0⟩, NodeHeader.rootFlag ||| NodeHeader.leafFlag, 0, 2, ⟨0, 16⟩, ⟨3, 0⟩,
    ⟨0xFFFF, 0⟩, ⟨0xFFFF, 0⟩⟩
  footer := some ⟨0, 0, 0, 0, 0, 0, 0, 0⟩
  leaf_iff_level := by decide

theorem parse_delimits_two_entries :
    Node.parse .big twoEntries.bytes = .ok twoEntries ∧
      twoEntries.key none 0 = .ok ⟨#[21, 22]⟩ ∧
      twoEntries.value none 0 = .ok ⟨#[31, 32, 33, 34]⟩ ∧
      twoEntries.value none 1 = .ok ByteArray.empty := by
  obtain ⟨accepted, each⟩ := parse_delimits .big twoEntries.bytes
  have holds : twoEntries.Holds .big twoEntries.bytes :=
    ⟨rfl, rfl, by decide +kernel, by decide +kernel⟩
  obtain ⟨n, parsed⟩ := accepted.mpr (by
    rw [← holds.header_eq]
    exact ⟨by decide +kernel, by decide, by decide +kernel, by decide +kernel, by decide,
      by decide +kernel⟩)
  obtain ⟨holds', delimits⟩ := each n parsed
  obtain rfl := holds.unique holds'
  have first : twoEntries.storedSlot 0 = .variable ⟨0, 2⟩ ⟨4, 4⟩ := by decide +kernel
  have second : twoEntries.storedSlot 1 = .variable ⟨2, 1⟩ ⟨0xFFFF, 9⟩ := by decide +kernel
  refine ⟨parsed, (delimits.key_iff none 0 _).mpr ⟨by decide, 0, 2, ?_, by decide +kernel,
      by decide +kernel⟩, (delimits.value_iff none 0 _).mpr ⟨by decide, 4, 4, ?_,
        .inr (by decide +kernel)⟩,
    (delimits.value_iff none 1 _).mpr ⟨by decide, 0xFFFF, 9, ?_, .inl ⟨rfl, rfl⟩⟩⟩
  · rw [first]
    exact .variable _ _ _
  · rw [first]
    exact .variable _ _ _ _
  · rw [second]
    exact .variable _ _ _ _

end Node

end Tree

end ObjectStore
