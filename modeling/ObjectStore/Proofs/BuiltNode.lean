import ObjectStore.Proofs.NodeFormat
import ObjectStore.Proofs.NodeParts

/-
Nodes that have been built are decoded to what was drafted: the header with its checksum, the
footer of a root, and every entry under its place.
-/
namespace ObjectStore

open Codec ObjectStore.Tree

namespace NodeDraft

def freeSize (d : NodeDraft) (valueEnd : Nat) : Nat :=
  valueEnd - d.keyStart - Entry.keyBytes d.entries - Entry.valueBytes d.entries

def parts (d : NodeDraft) (valueEnd : Nat) (slots : List Slot) (header : NodeHeader)
    (footer : Bytes) : List Bytes :=
  [NodeHeader.codec.encode d.order header] ++
    slots.map ((Slot.codec d.layout.isFixed).encode d.order) ++ d.entries.map Prod.fst ++
    [Bytes.zeros (d.freeSize valueEnd)] ++ (d.entries.map Prod.snd).reverse ++ [footer]

def storedHeader (d : NodeDraft) (header : NodeHeader) (sum : UInt64) : NodeHeader :=
  { header with object := { d.object with checksum := sum } }

structure Laid (d : NodeDraft) (valueEnd : Nat) (slots : List Slot) (header : NodeHeader)
    (footer : Bytes) : Prop where
  value_end : d.valueEnd = .ok valueEnd
  table_room : d.keyStart ≤ valueEnd
  slots_eq : d.slotsFrom valueEnd 0 0 0 d.entries = .ok slots
  header_eq : d.header (d.freeSize valueEnd) = .ok header
  footer_eq : d.footerBytes = .ok footer

variable {d : NodeDraft} {bytes : Bytes}

theorem build_eq_ok (built : d.build = .ok bytes) :
    ∃ valueEnd slots header footer, d.Laid valueEnd slots header footer ∧
      (Object.writeChecksum d.order).on (concat (d.parts valueEnd slots header footer))
        = (.ok (), bytes) := by
  obtain ⟨valueEnd, value_end, built⟩ := bind_eq_ok.mp built
  obtain ⟨table_room, built⟩ := checked_eq_ok.mp built
  obtain ⟨slots, slots_eq, built⟩ := bind_eq_ok.mp built
  obtain ⟨header, header_eq, built⟩ := bind_eq_ok.mp built
  obtain ⟨footer, footer_eq, built⟩ := bind_eq_ok.mp built
  exact ⟨valueEnd, slots, header, footer,
    ⟨value_end, Nat.le_of_not_lt table_room, slots_eq, header_eq, footer_eq⟩,
    apply_eq_ok.mp (mapError_eq_ok.mp built)⟩

structure Heads (d : NodeDraft) (free : Nat) (header : NodeHeader) : Prop where
  object_eq : header.object = d.object
  flags_eq : header.flags = d.nodeFlags
  level_eq : header.level = d.level
  count_eq : header.keyCount.toNat = d.entries.length
  table_off : header.tableSpace.off = 0
  table_len : header.tableSpace.len.toNat = d.entries.length * d.layout.slotSize
  free_off : header.freeSpace.off.toNat = Entry.keyBytes d.entries
  free_len : header.freeSpace.len.toNat = free

theorem heads_of_header {free : Nat} {header : NodeHeader} (made : d.header free = .ok header) :
    d.Heads free header := by
  obtain ⟨count, count_eq, made⟩ := bind_eq_ok.mp made
  obtain ⟨table, table_eq, made⟩ := bind_eq_ok.mp made
  obtain ⟨freeOff, freeOff_eq, made⟩ := bind_eq_ok.mp made
  obtain ⟨freeLen, freeLen_eq, made⟩ := bind_eq_ok.mp made
  cases made
  exact ⟨rfl, rfl, rfl, fit32_eq_ok count_eq, rfl, fit16_eq_ok table_eq, fit16_eq_ok freeOff_eq,
    fit16_eq_ok freeLen_eq⟩

def FooterIs (d : NodeDraft) (f : Footer) : Prop :=
  d.footer = some f ∨ d.footer = none ∧ d.derivedFooter = .ok f

theorem footerBytes_eq_ok {footer : Bytes} (made : d.footerBytes = .ok footer) :
    (d.root = false ∧ footer = ByteArray.empty) ∨
      d.root = true ∧ ∃ f, d.FooterIs f ∧ footer = Footer.codec.encode d.order f := by
  unfold footerBytes at made
  cases root : d.root with
  | false =>
    rw [root] at made
    cases made
    exact .inl ⟨rfl, rfl⟩
  | true =>
    simp only [root, Bool.not_true, Bool.false_eq_true, ↓reduceIte] at made
    refine .inr ⟨rfl, ?_⟩
    cases given : d.footer with
    | some f =>
      rw [given] at made
      cases made
      exact ⟨f, .inl given, rfl⟩
    | none =>
      rw [given] at made
      obtain ⟨f, derived, made⟩ := bind_eq_ok.mp made
      cases made
      exact ⟨f, .inr ⟨given, derived⟩, rfl⟩

def impliedFlags : UInt16 :=
  NodeHeader.rootFlag ||| NodeHeader.leafFlag ||| NodeHeader.fixedFlag

theorem or_and_distrib (x y z : UInt16) : (x ||| y) &&& z = (x &&& z) ||| (y &&& z) := by
  apply UInt16.toBitVec_inj.mp
  ext i h
  simp [Bool.and_or_distrib_right]

/-- Flags beyond those of a mask do not show under a part of the mask. -/
theorem or_and_part {x y mask part : UInt16} (beyond : x &&& mask = 0)
    (inside : mask &&& part = part) : (x ||| y) &&& part = y &&& part := by
  have none : x &&& part = 0 := by
    rw [← inside, ← UInt16.and_assoc, beyond, UInt16.zero_and]
  rw [or_and_distrib, none, UInt16.zero_or]

theorem and_not_mask {x mask : UInt16} (beyond : x &&& mask = 0) : x &&& ~~~mask = x := by
  have all : (mask ||| ~~~mask) &&& x = x := by simp
  rw [or_and_distrib, UInt16.and_comm, beyond, UInt16.zero_or] at all
  rw [UInt16.and_comm]
  exact all

/-- The flags say what the draft says, as long as none that are implied are asked for. -/
theorem nodeFlags_eq (extra : d.flags &&& impliedFlags = 0) {header : NodeHeader}
    (flags_eq : header.flags = d.nodeFlags) :
    header.isRoot = d.root ∧ header.isLeaf = d.isLeaf ∧ header.isFixed = d.layout.isFixed := by
  simp only [NodeHeader.isRoot, NodeHeader.isLeaf, NodeHeader.isFixed, NodeHeader.has, flags_eq,
    nodeFlags, UInt16.or_assoc]
  rw [or_and_part extra (by decide), or_and_part extra (by decide), or_and_part extra (by decide)]
  cases d.root <;> cases d.isLeaf <;> cases d.layout.isFixed <;> decide

/-- Beside the implied flags are those that the draft asks for. -/
theorem nodeFlags_beyond (extra : d.flags &&& impliedFlags = 0) :
    d.nodeFlags &&& ~~~impliedFlags = d.flags := by
  simp only [nodeFlags, UInt16.or_assoc]
  rw [or_and_distrib, and_not_mask extra]
  cases d.root <;> cases d.isLeaf <;> cases d.layout.isFixed <;>
    exact UInt16.or_zero

namespace Laid

variable {valueEnd : Nat} {slots : List Slot} {header : NodeHeader} {footer : Bytes}

theorem heads (b : d.Laid valueEnd slots header footer) : d.Heads (d.freeSize valueEnd) header :=
  heads_of_header b.header_eq

theorem size_header (d : NodeDraft) (header : NodeHeader) :
    (NodeHeader.codec.encode d.order header).size = NodeHeader.size :=
  (NodeHeader.codec_lawful.read_encode (by decide) d.order header).1

theorem size_slot (d : NodeDraft) (slot : Slot) :
    ((Slot.codec d.layout.isFixed).encode d.order slot).size = d.layout.slotSize := by
  rw [((Slot.codec_lawful d.layout.isFixed).read_encode
    (by rw [Slot.size_codec]; cases d.layout.isFixed <;> decide) d.order slot).1, Slot.size_codec]
  rfl

theorem size_footer (b : d.Laid valueEnd slots header footer) :
    valueEnd + footer.size = d.nodeSize := by
  have value_end := b.value_end
  unfold NodeDraft.valueEnd at value_end
  rcases footerBytes_eq_ok b.footer_eq with ⟨root, none_there⟩ | ⟨root, f, -, encoded⟩
  · rw [root] at value_end
    cases value_end
    rw [none_there]
    rfl
  · have size_eq : footer.size = Footer.size := by
      rw [encoded]
      exact (Footer.codec_lawful.read_encode (by decide) d.order f).1
    simp only [root, Bool.not_true, Bool.false_eq_true, ↓reduceIte] at value_end
    split at value_end
    · cases value_end
    · cases value_end
      omega

theorem total_slots (d : NodeDraft) (slots : List Slot) :
    total (slots.map ((Slot.codec d.layout.isFixed).encode d.order))
      = slots.length * d.layout.slotSize := by
  rw [total_const (n := d.layout.slotSize), List.length_map]
  intro part mem
  obtain ⟨slot, -, same⟩ := List.mem_map.mp mem
  rw [← same, size_slot]

theorem length_slots (b : d.Laid valueEnd slots header footer) :
    slots.length = d.entries.length :=
  (slotsFrom_eq_ok b.slots_eq).1

theorem size_block (b : d.Laid valueEnd slots header footer) :
    (concat (d.parts valueEnd slots header footer)).size = d.nodeSize := by
  have room := b.table_room
  have fit := entries_fit room b.slots_eq
  have footer_size := b.size_footer
  have head := size_header d header
  simp only [size_concat, parts, total_append, total, total_slots, total_reverse, b.length_slots,
    Bytes.size_zeros, freeSize, head, ← Entry.keyBytes_eq_total, ← Entry.valueBytes_eq_total]
  simp only [keyStart] at *
  omega

theorem roomy (b : d.Laid valueEnd slots header footer) :
    NodeHeader.size ≤ d.nodeSize := by
  have room := b.table_room
  have footer_size := b.size_footer
  simp only [keyStart] at room
  omega

theorem is_sealed (b : d.Laid valueEnd slots header footer)
    (addressable : d.nodeSize < Bytes.addressLimit) : ∃ sum bytes,
    (Object.writeChecksum d.order).on (concat (d.parts valueEnd slots header footer))
      = (.ok (), bytes) ∧
    Object.Sealed d.order (concat (d.parts valueEnd slots header footer)) sum bytes := by
  have roomy := b.roomy
  have large : ObjectHeader.size ≤ NodeHeader.size := by decide
  exact Object.writeChecksum_seals d.order (by rw [b.size_block]; omega)
    (by rw [b.size_block]; exact addressable)

variable {sum : UInt64}

theorem part_at (front group back : List Bytes) {i : Nat} (h : i < group.length)
    (split : d.parts valueEnd slots header footer
      = NodeHeader.codec.encode d.order header :: front ++ group ++ back)
    (sealed_block : Object.Sealed d.order (concat (d.parts valueEnd slots header footer)) sum bytes)
    {j : Nat} (inside : j < group[i].size) :
    bytes.getPadded (NodeHeader.size + total front + total (group.take i) + j)
      = group[i].getPadded j := by
  have head := size_header d header
  have past : Object.checksumSize ≤ NodeHeader.size := by decide
  rw [sealed_block.behind _ (by omega), split, ← head]
  exact getPadded_group h inside

section

variable (b : d.Laid valueEnd slots header footer)
  (sealed_block : Object.Sealed d.order (concat (d.parts valueEnd slots header footer)) sum bytes)

include sealed_block in
theorem slot_at {i : Nat} (h : i < slots.length) {j : Nat} (inside : j < d.layout.slotSize) :
    bytes.getPadded (NodeHeader.size + i * d.layout.slotSize + j)
      = ((Slot.codec d.layout.isFixed).encode d.order slots[i]).getPadded j := by
  have size_eq := size_slot d slots[i]
  have before := total_slots d (slots.take i)
  rw [List.map_take, List.length_take, Nat.min_eq_left (by omega)] at before
  have at_part := part_at [] (slots.map ((Slot.codec d.layout.isFixed).encode d.order))
    (d.entries.map Prod.fst ++ [Bytes.zeros (d.freeSize valueEnd)] ++
      (d.entries.map Prod.snd).reverse ++ [footer]) (i := i) (by simpa using h)
    (by simp only [parts, List.append_assoc, List.cons_append, List.nil_append]) sealed_block
    (j := j) (by rw [List.getElem_map, size_eq]; exact inside)
  rw [List.getElem_map, total, Nat.add_zero, before] at at_part
  exact at_part

include b sealed_block in
theorem key_at {i : Nat} (h : i < d.entries.length) {j : Nat}
    (inside : j < d.entries[i].1.size) :
    bytes.getPadded (d.keyStart + total ((d.entries.map Prod.fst).take i) + j)
      = d.entries[i].1.getPadded j := by
  have at_part := part_at
    (slots.map ((Slot.codec d.layout.isFixed).encode d.order)) (d.entries.map Prod.fst)
    ([Bytes.zeros (d.freeSize valueEnd)] ++ (d.entries.map Prod.snd).reverse ++ [footer]) (i := i)
    (by simpa using h)
    (by simp only [parts, List.append_assoc, List.cons_append, List.nil_append]) sealed_block
    (j := j) (by rw [List.getElem_map]; exact inside)
  rw [List.getElem_map, total_slots, b.length_slots] at at_part
  exact at_part

include b sealed_block in
theorem value_at {i : Nat} (h : i < d.entries.length) {j : Nat}
    (inside : j < d.entries[i].2.size) :
    bytes.getPadded (valueEnd - total ((d.entries.map Prod.snd).take (i + 1)) + j)
      = d.entries[i].2.getPadded j := by
  have room := b.table_room
  have fit := entries_fit room b.slots_eq
  have reversed : i = d.entries.length - 1 - (d.entries.length - 1 - i) := by omega
  have at_part := part_at
    (slots.map ((Slot.codec d.layout.isFixed).encode d.order) ++
      d.entries.map Prod.fst ++ [Bytes.zeros (d.freeSize valueEnd)])
    (d.entries.map Prod.snd).reverse [footer] (i := d.entries.length - 1 - i)
    (by rw [List.length_reverse, List.length_map]; omega)
    (by simp only [parts, List.append_assoc, List.cons_append, List.nil_append]) sealed_block
    (j := j) (by
      rw [List.getElem_reverse, List.getElem_map]
      simp only [List.length_map, ← reversed]
      exact inside)
  rw [List.getElem_reverse, List.getElem_map] at at_part
  simp only [List.length_map, ← reversed] at at_part
  rw [← at_part, List.take_reverse, List.length_map,
    show d.entries.length - (d.entries.length - 1 - i) = i + 1 by omega]
  congr 1
  simp only [total_append, total_slots, total, Bytes.size_zeros, freeSize, total_reverse,
    b.length_slots, ← Entry.keyBytes_eq_total]
  have whole := total_split (d.entries.map Prod.snd) (i + 1)
  rw [← Entry.valueBytes_eq_total] at whole
  simp only [keyStart] at *
  omega

include b sealed_block in
theorem footer_at {j : Nat} (inside : j < footer.size) :
    bytes.getPadded (valueEnd + j) = footer.getPadded j := by
  have room := b.table_room
  have fit := entries_fit room b.slots_eq
  have at_part := part_at
    (slots.map ((Slot.codec d.layout.isFixed).encode d.order) ++
      d.entries.map Prod.fst ++ [Bytes.zeros (d.freeSize valueEnd)] ++
      (d.entries.map Prod.snd).reverse) [footer] [] (i := 0) (by simp)
    (by simp only [parts, List.append_assoc, List.cons_append, List.nil_append, List.append_nil])
    sealed_block (j := j) inside
  rw [List.getElem_singleton] at at_part
  rw [← at_part]
  congr 1
  simp only [total_append, total_slots, total, Bytes.size_zeros, freeSize, total_reverse,
    List.take_zero, b.length_slots, ← Entry.keyBytes_eq_total, ← Entry.valueBytes_eq_total]
  simp only [keyStart] at *
  omega

include b sealed_block in
theorem header_read : NodeHeader.parse d.order bytes
    = .ok (d.storedHeader header sum) := by
  have roomy := b.roomy
  have size_eq := sealed_block.size_eq
  have block_size := b.size_block
  have addressable := sealed_block.addressable
  have head := size_header d header
  have whole : NodeHeader.codec.size = NodeHeader.size := rfl
  have unsealed : NodeHeader.codec.read d.order (concat (d.parts valueEnd slots header footer)) 0
      = .ok header := by
    apply NodeHeader.codec_lawful.read_at (by decide) (by omega) addressable
    intro i lt
    simp only [parts, List.append_assoc, List.cons_append, List.nil_append]
    exact @getPadded_concat [] _ _ _ (by omega)
  obtain ⟨⟨object, rest⟩, read, same⟩ := map_eq_ok.mp unsealed
  have room : (ObjectHeader.codec.seq NodeHeader.fields).size
      ≤ (concat (d.parts valueEnd slots header footer)).size := by
    change NodeHeader.size ≤ _
    omega
  have read_sealed := sealed_block.read_record NodeHeader.fields_lawful room read
  have object_eq := b.heads.object_eq
  rw [NodeHeader.parse, Codec.decode, Bytes.require, if_neg (by omega)]
  change ((ObjectHeader.codec.seq NodeHeader.fields).read d.order bytes 0).map _ = _
  rw [read_sealed]
  rw [← same] at object_eq
  rw [storedHeader, ← same, ← object_eq]
  rfl

include b sealed_block in
theorem footer_read {f : Footer} (encoded : footer = Footer.codec.encode d.order f) :
    Footer.ofRoot d.order bytes = .ok f := by
  have size_eq := sealed_block.size_eq
  have block_size := b.size_block
  have addressable := sealed_block.addressable
  have footer_size := b.size_footer
  have whole : footer.size = Footer.size := by
    rw [encoded]
    exact (Footer.codec_lawful.read_encode (by decide) d.order f).1
  have cut : (bytes.drop (bytes.size - Footer.size)).size = Footer.size := by
    rw [Bytes.drop, Bytes.size_extract_of_le (Nat.le_refl _)]
    omega
  rw [Footer.ofRoot, Bytes.require, if_neg (by omega), ok_bind, Footer.parse]
  refine Footer.codec_lawful.read_at (by decide) ?_ ?_ fun j lt => ?_
  · rw [cut]
    exact Nat.le_refl _
  · rw [cut]
    decide
  · have inside : j < footer.size := whole ▸ lt
    have place : bytes.size - Footer.size + j = valueEnd + j := by omega
    rw [Nat.zero_add, Bytes.drop, Bytes.getPadded_extract (by omega), ← encoded, place,
      footer_at b sealed_block inside]

end

end Laid

structure Reads (d : NodeDraft) (bytes : Bytes) (n : Node) : Prop where
  parsed : Node.parse d.order bytes = .ok n
  verified : Object.verifies d.order bytes = true
  size_eq : bytes.size = d.nodeSize
  order_eq : n.order = d.order
  object_eq : n.object = { d.object with checksum := n.object.checksum }
  level_eq : n.level = d.level
  root_eq : n.isRoot = d.root
  footer_eq : d.root = true → ∃ f, d.FooterIs f ∧ n.footer = some f
  keyCount_eq : n.keyCount = d.entries.length
  key_eq : ∀ sizes, d.layout.ReadWith sizes → ∀ i (h : i < d.entries.length),
    n.key sizes i = .ok d.entries[i].1
  value_eq : ∀ sizes, d.layout.ReadWith sizes → ∀ i (h : i < d.entries.length),
    n.value sizes i = .ok d.entries[i].2

def largestNode : Nat := 65536

namespace Laid

variable {valueEnd : Nat} {slots : List Slot} {header : NodeHeader} {footer : Bytes}
  {sum : UInt64} (b : d.Laid valueEnd slots header footer)
  (sealed_block : Object.Sealed d.order (concat (d.parts valueEnd slots header footer)) sum bytes)

theorem root_footer (b : d.Laid valueEnd slots header footer)
    (sealed_block : Object.Sealed d.order (concat (d.parts valueEnd slots header footer)) sum bytes)
    (root : d.root = true) : ∃ f, d.FooterIs f ∧ Footer.ofRoot d.order bytes = .ok f := by
  rcases footerBytes_eq_ok b.footer_eq with ⟨other, -⟩ | ⟨-, f, is_footer, encoded⟩
  · rw [root] at other
    cases other
  · exact ⟨f, is_footer, footer_read b sealed_block encoded⟩

include b in
theorem keyStartIn_eq : Node.keyStartIn (d.storedHeader header sum) = d.keyStart := by
  change NodeHeader.size + header.tableSpace.off.toNat + header.tableSpace.len.toNat = _
  rw [b.heads.table_off, b.heads.table_len]
  rfl

include b sealed_block in
/-- Where the values end is computed as it was in the draft. -/
theorem valueEndIn_eq (root_eq : header.isRoot = d.root) :
    Node.valueEndIn (d.storedHeader header sum) bytes.size = valueEnd := by
  have size_eq := sealed_block.size_eq
  have block_size := b.size_block
  have footer_size := b.size_footer
  have stored_root : (d.storedHeader header sum).isRoot = d.root := root_eq
  rw [Node.valueEndIn, stored_root]
  rcases footerBytes_eq_ok b.footer_eq with ⟨root, none_there⟩ | ⟨root, f, -, encoded⟩
  · have empty : footer.size = 0 := by rw [none_there]; rfl
    simp only [root, Bool.false_eq_true, ↓reduceIte]
    omega
  · have whole : footer.size = Footer.size := by
      rw [encoded]
      exact (Footer.codec_lawful.read_encode (by decide) d.order f).1
    rw [root, if_pos rfl]
    omega

include b sealed_block in
theorem fits (extra : d.flags &&& impliedFlags = 0) :
    (d.storedHeader header sum).Fits bytes.size := by
  have heads := b.heads
  obtain ⟨root_eq, leaf_eq, fixed_eq⟩ := nodeFlags_eq extra heads.flags_eq
  have head : NodeHeader.size = 56 := rfl
  have front : NodeHeader.size ≤ d.keyStart := Nat.le_add_right _ _
  have room := b.table_room
  have fit := entries_fit room b.slots_eq
  have roomy := b.roomy
  have size_eq := sealed_block.size_eq
  have block_size := b.size_block
  have keys : Node.keyStartIn (d.storedHeader header sum) = d.keyStart := b.keyStartIn_eq
  have ends := b.valueEndIn_eq sealed_block root_eq
  constructor
  case header_room => omega
  case leaf_iff_level =>
    change header.isLeaf = true ↔ header.level = 0
    rw [leaf_eq, heads.level_eq, isLeaf, beq_iff_eq]
  case footer_room =>
    intro _
    omega
  case table_room =>
    change Node.keyStartIn (d.storedHeader header sum) ≤ _
    omega
  case slots_room =>
    change header.keyCount.toNat * Slot.sizeOf header.isFixed ≤ header.tableSpace.len.toNat
    rw [heads.count_eq, heads.table_len, fixed_eq]
    exact Nat.le_refl _
  case free_room =>
    change Node.keyStartIn (d.storedHeader header sum) + header.freeSpace.off.toNat +
      header.freeSpace.len.toNat ≤ _
    rw [keys, ends, heads.free_off, heads.free_len, freeSize]
    omega

section Entries

variable {n : Node} (bytes_eq : n.bytes = bytes) (order_eq : n.order = d.order)
  (keyStart_eq : n.keyStart = d.keyStart) (valueEnd_eq : n.valueEnd = valueEnd)
  (fixed_eq : n.isFixed = d.layout.isFixed) (count_eq : n.keyCount = d.entries.length)

include b sealed_block bytes_eq order_eq keyStart_eq fixed_eq count_eq in
theorem slot_eq (tableStart_eq : n.tableStart = NodeHeader.size) {i : Nat}
    (h : i < d.entries.length) (h' : i < slots.length) : n.slot i = .ok slots[i] := by
  have size_eq := sealed_block.size_eq
  have block_size := b.size_block
  have addressable := sealed_block.addressable
  have room := b.table_room
  have footer_size := b.size_footer
  have width := Slot.size_codec d.layout.isFixed
  have table_size : n.table.size = d.entries.length * d.layout.slotSize := by
    rw [Node.table, tableStart_eq, keyStart_eq, Bytes.size_extract_of_le (by rw [bytes_eq]; omega),
      keyStart]
    omega
  have table_end : (i + 1) * d.layout.slotSize ≤ d.entries.length * d.layout.slotSize :=
    Nat.mul_le_mul_right _ h
  rw [Nat.add_mul, Nat.one_mul] at table_end
  have normal := ((slotsFrom_eq_ok b.slots_eq).2 i h h').1.normal
  have read : (Slot.codec d.layout.isFixed).read d.order n.table (i * d.layout.slotSize)
      = .ok (slots[i].normal d.layout.isFixed) := (Slot.codec_lawful d.layout.isFixed).read_at
    (by rw [width]; cases d.layout.isFixed <;> decide)
    (by rw [width, table_size]; exact table_end)
    (by rw [table_size]; simp only [keyStart] at room; omega) (by
      intro j lt
      rw [width] at lt
      have inside : j < d.layout.slotSize := lt
      rw [Node.table, Bytes.getPadded_extract (by rw [tableStart_eq, keyStart_eq, keyStart]; omega),
        tableStart_eq, bytes_eq, ← Nat.add_assoc]
      exact slot_at sealed_block h' inside)
  rw [Node.slot, if_pos (by omega), fixed_eq, order_eq]
  rw [normal] at read
  exact read

include b sealed_block bytes_eq keyStart_eq valueEnd_eq in
theorem key_eq {sizes : Option EntrySizes} (readWith : d.layout.ReadWith sizes) {i : Nat}
    (h : i < d.entries.length) (h' : i < slots.length) (slot : n.slot i = .ok slots[i]) :
    n.key sizes i = .ok d.entries[i].1 := by
  have size_eq := sealed_block.size_eq
  have block_size := b.size_block
  have footer_size := b.size_footer
  obtain ⟨slot_for, room⟩ := (slotsFrom_eq_ok b.slots_eq).2 i h h'
  have range := slot_for.key_range sizes readWith
  rw [total_take_succ _ (by simpa using h), List.getElem_map] at room
  have fits : d.keyStart + total ((d.entries.map Prod.fst).take i) + d.entries[i].1.size
      ≤ valueEnd := by omega
  simp only [Node.key, slot, ok_bind, range, bytes_eq, keyStart_eq, valueEnd_eq, Nat.zero_add]
  rw [if_neg (by omega), if_neg (by omega)]
  refine congrArg Except.ok (Bytes.ext_getPadded ?_ fun j lt => ?_)
  · rw [Bytes.size_extract_of_le (by omega)]
    omega
  · rw [Bytes.size_extract_of_le (by omega)] at lt
    rw [Bytes.getPadded_extract (by omega), key_at b sealed_block h (by omega)]

include b sealed_block bytes_eq keyStart_eq valueEnd_eq in
theorem value_eq (small : d.nodeSize ≤ largestNode) (leaf_eq : n.isLeaf = d.isLeaf)
    {sizes : Option EntrySizes} (readWith : d.layout.ReadWith sizes) {i : Nat}
    (h : i < d.entries.length) (h' : i < slots.length) (slot : n.slot i = .ok slots[i]) :
    n.value sizes i = .ok d.entries[i].2 := by
  have size_eq := sealed_block.size_eq
  have block_size := b.size_block
  have footer_size := b.size_footer
  obtain ⟨slot_for, room⟩ := (slotsFrom_eq_ok b.slots_eq).2 i h h'
  obtain ⟨off, off_eq, range⟩ := slot_for.value_range sizes readWith
  have keys : NodeHeader.size ≤ d.keyStart := Nat.le_add_right _ _
  have head : NodeHeader.size = 56 := rfl
  have limit : largestNode = 65536 := rfl
  have some_value : ¬off = Slot.noValue := by
    intro none_there
    rw [none_there] at off_eq
    have largest : Slot.noValue.toNat = 65535 := rfl
    omega
  rw [Nat.zero_add] at off_eq
  have last := total_take_succ (d.entries.map Prod.snd) (i := i) (by simpa using h)
  rw [List.getElem_map] at last
  simp only [Node.value, slot, ok_bind, leaf_eq, range, bytes_eq, keyStart_eq, valueEnd_eq]
  rw [if_neg some_value, if_neg (by omega), if_neg (by omega), if_neg (by omega), off_eq]
  refine congrArg Except.ok (Bytes.ext_getPadded ?_ fun j lt => ?_)
  · rw [Bytes.size_extract_of_le (by omega)]
    omega
  · rw [Bytes.size_extract_of_le (by omega)] at lt
    rw [Bytes.getPadded_extract (by omega), value_at b sealed_block h (by omega)]

end Entries

end Laid

structure Made (d : NodeDraft) (bytes : Bytes) (n : Node) (valueEnd : Nat) (slots : List Slot)
    (header : NodeHeader) (footer : Bytes) (sum : UInt64) : Prop where
  laid : d.Laid valueEnd slots header footer
  sealed_block : Object.Sealed d.order (concat (d.parts valueEnd slots header footer)) sum bytes
  parsed : Node.parse d.order bytes = .ok n
  order_eq : n.order = d.order
  bytes_eq : n.bytes = bytes
  header_eq : n.header = d.storedHeader header sum
  footer_eq : d.root = true → ∃ f, d.FooterIs f ∧ n.footer = some f
  valueEnd_eq : n.valueEnd = valueEnd

theorem build_made (built : d.build = .ok bytes) (extra : d.flags &&& impliedFlags = 0)
    (small : d.nodeSize ≤ largestNode) :
    ∃ n valueEnd slots header footer sum, d.Made bytes n valueEnd slots header footer sum := by
  obtain ⟨valueEnd, slots, header, footer, b, written⟩ := build_eq_ok built
  have limit : largestNode < Bytes.addressLimit := by decide
  obtain ⟨sum, bytes', written', sealed_block⟩ := b.is_sealed (by omega)
  have same : bytes' = bytes := congrArg Prod.snd (written'.symm.trans written)
  rw [same] at sealed_block
  obtain ⟨root_eq, -⟩ := nodeFlags_eq extra b.heads.flags_eq
  obtain ⟨-, stored⟩ := Node.parseHeader_eq_ok.mp (Laid.header_read b sealed_block)
  have fits := b.fits sealed_block extra
  rw [stored] at fits
  obtain ⟨n, parsed⟩ := (Node.parses_iff d.order bytes).mpr fits
  obtain ⟨-, holds⟩ := Node.parse_eq_ok.mp parsed
  have header_eq := holds.header_eq.trans stored.symm
  refine ⟨n, valueEnd, slots, header, footer, sum, b, sealed_block, parsed, holds.order_eq,
    holds.bytes_eq, header_eq, ?_, ?_⟩
  · intro root
    obtain ⟨f, is_footer, read⟩ := b.root_footer sealed_block root
    have n_root : n.isRoot = true := by
      rw [Node.isRoot, header_eq]
      exact root_eq.trans root
    refine ⟨f, is_footer, ?_⟩
    rw [holds.footer_eq, if_pos n_root, (Node.ofRoot_eq_ok.mp read).2]
  · rw [Node.valueEnd, header_eq, holds.bytes_eq]
    exact b.valueEndIn_eq sealed_block root_eq

namespace Made

variable {n : Node} {valueEnd : Nat} {slots : List Slot} {header : NodeHeader} {footer : Bytes}
  {sum : UInt64} (m : d.Made bytes n valueEnd slots header footer sum)

include m

theorem keyStart_eq : n.keyStart = d.keyStart := by
  rw [Node.keyStart, m.header_eq]
  exact m.laid.keyStartIn_eq

theorem tableStart_eq : n.tableStart = NodeHeader.size := by
  rw [Node.tableStart, m.header_eq]
  change NodeHeader.size + header.tableSpace.off.toNat = NodeHeader.size
  rw [m.laid.heads.table_off]
  rfl

theorem flags_eq : n.header.flags = d.nodeFlags := by
  rw [m.header_eq]
  exact m.laid.heads.flags_eq

theorem level_eq : n.level = d.level := by
  rw [Node.level, m.header_eq]
  exact m.laid.heads.level_eq

theorem keyCount_eq : n.keyCount = d.entries.length := by
  rw [Node.keyCount, m.header_eq]
  exact m.laid.heads.count_eq

theorem object_eq : n.object = { d.object with checksum := n.object.checksum } := by
  rw [Node.object, m.header_eq]
  rfl

theorem reads (extra : d.flags &&& impliedFlags = 0) (small : d.nodeSize ≤ largestNode) :
    d.Reads bytes n := by
  obtain ⟨root_eq, leaf_eq, fixed_eq⟩ := nodeFlags_eq extra m.flags_eq
  have slots_length := m.laid.length_slots
  have slot_eq : ∀ i (_ : i < d.entries.length) (h' : i < slots.length),
      n.slot i = .ok slots[i] := fun i h h' =>
    m.laid.slot_eq m.sealed_block m.bytes_eq m.order_eq m.keyStart_eq fixed_eq m.keyCount_eq
      m.tableStart_eq h h'
  constructor
  case parsed => exact m.parsed
  case verified => exact m.sealed_block.verified
  case size_eq => exact m.sealed_block.size_eq.trans m.laid.size_block
  case order_eq => exact m.order_eq
  case object_eq => exact m.object_eq
  case level_eq => exact m.level_eq
  case root_eq => exact root_eq
  case footer_eq => exact m.footer_eq
  case keyCount_eq => exact m.keyCount_eq
  case key_eq =>
    intro sizes readWith i h
    exact m.laid.key_eq m.sealed_block m.bytes_eq m.keyStart_eq m.valueEnd_eq readWith h (by omega)
      (slot_eq i h (by omega))
  case value_eq =>
    intro sizes readWith i h
    exact m.laid.value_eq m.sealed_block m.bytes_eq m.keyStart_eq m.valueEnd_eq small leaf_eq
      readWith h (by omega) (slot_eq i h (by omega))

end Made

/-- Building and parsing a node gives back its draft. -/
theorem build_reads (built : d.build = .ok bytes) (extra : d.flags &&& impliedFlags = 0)
    (small : d.nodeSize ≤ largestNode) : ∃ n, d.Reads bytes n := by
  obtain ⟨n, _, _, _, _, _, m⟩ := build_made built extra small
  exact ⟨n, m.reads extra small⟩

def footerSize (d : NodeDraft) : Nat := if d.root then Footer.size else 0

theorem valueEnd_eq (room : d.footerSize ≤ d.nodeSize) :
    d.valueEnd = .ok (d.nodeSize - d.footerSize) := by
  unfold footerSize at room
  rw [valueEnd, footerSize]
  cases root : d.root with
  | false => rfl
  | true =>
    rw [root, if_pos rfl] at room
    simp only [Bool.not_true, Bool.false_eq_true, ↓reduceIte]
    rw [if_neg (by omega)]

theorem footerBytes_succeeds (footer : d.root = true → ∃ f, d.FooterIs f) :
    ∃ bytes, d.footerBytes = .ok bytes := by
  unfold footerBytes
  cases root : d.root with
  | false => exact ⟨_, rfl⟩
  | true =>
    obtain ⟨f, given | ⟨none_there, derived⟩⟩ := footer root
    · rw [given]
      exact ⟨_, rfl⟩
    · rw [none_there, derived]
      exact ⟨_, rfl⟩

theorem build_succeeds (small : d.nodeSize ≤ largestNode)
    (lengths : ∀ entry ∈ d.entries, ∀ index, d.checkLengths index entry = .ok ())
    (room : d.keyStart + Entry.keyBytes d.entries + Entry.valueBytes d.entries + d.footerSize
      ≤ d.nodeSize) (footer : d.root = true → ∃ f, d.FooterIs f) :
    ∃ bytes, d.build = .ok bytes := by
  have limit : largestNode = 65536 := rfl
  have head : NodeHeader.size = 56 := rfl
  have front : d.keyStart = NodeHeader.size + d.entries.length * d.layout.slotSize := rfl
  have slot_size : 4 ≤ d.layout.slotSize := by
    cases d.layout with
    | fixed own => exact Nat.le_refl 4
    | «variable» => decide
  have table := Nat.mul_le_mul_left d.entries.length slot_size
  have value_end := d.valueEnd_eq (by omega)
  obtain ⟨slots, slots_eq⟩ := slotsFrom_succeeds (d := d)
    (d.nodeSize - d.footerSize) 0 0 0 lengths
    (by rw [← Entry.keyBytes_eq_total, ← Entry.valueBytes_eq_total]; omega) (by omega)
  obtain ⟨header, header_eq⟩ : ∃ header,
      d.header (d.freeSize (d.nodeSize - d.footerSize)) = .ok header := by
    have word : UInt16.size = 65536 := rfl
    have longWord : UInt32.size = 4294967296 := rfl
    rw [header, fit32_of_lt (by omega), fit16_of_lt (by omega), fit16_of_lt (by omega),
      fit16_of_lt (by rw [freeSize]; omega)]
    exact ⟨_, rfl⟩
  obtain ⟨footer, footer_eq⟩ := footerBytes_succeeds footer
  have laid : d.Laid (d.nodeSize - d.footerSize) slots header footer :=
    ⟨value_end, by omega, slots_eq, header_eq, footer_eq⟩
  obtain ⟨_, bytes, written, -⟩ := laid.is_sealed (by
    have : largestNode < Bytes.addressLimit := by decide
    omega)
  refine ⟨bytes, ?_⟩
  rw [build, value_end, ok_bind, if_neg (by omega), slots_eq, ok_bind]
  dsimp only
  rw [← freeSize, header_eq, ok_bind, footer_eq, ok_bind]
  exact mapError_eq_ok.mpr (apply_eq_ok.mpr written)

/-- A draft that can be built is the draft of the node that its block is parsed to. -/
theorem builds (extra : d.flags &&& impliedFlags = 0) (small : d.nodeSize ≤ largestNode)
    (lengths : ∀ entry ∈ d.entries, ∀ index, d.checkLengths index entry = .ok ())
    (room : d.keyStart + Entry.keyBytes d.entries + Entry.valueBytes d.entries + d.footerSize
      ≤ d.nodeSize) (footer : d.root = true → ∃ f, d.FooterIs f) :
    ∃ n : Node, d.build = .ok n.bytes ∧ d.Reads n.bytes n := by
  obtain ⟨bytes, built⟩ := build_succeeds small lengths room footer
  obtain ⟨n, _, _, _, _, _, made⟩ := build_made built extra small
  obtain rfl := made.bytes_eq
  exact ⟨n, built, made.reads extra small⟩

end NodeDraft

end ObjectStore
