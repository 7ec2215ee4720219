import ObjectStore.Proofs.Outcomes
import ObjectStore.Proofs.Sealed
import ObjectStore.Tree.Node

/-
The parts of which a node is put together: their sizes, where each lies among them, and what the
slots say of the entries.
-/
namespace ObjectStore

open Codec ObjectStore.Tree

def total : List Bytes → Nat
  | [] => 0
  | part :: rest => part.size + total rest

theorem total_append (front back : List Bytes) :
    total (front ++ back) = total front + total back := by
  induction front with
  | nil => simp [total]
  | cons part rest ih => simp only [List.cons_append, total, ih]; omega

theorem total_reverse (parts : List Bytes) : total parts.reverse = total parts := by
  induction parts with
  | nil => rfl
  | cons part rest ih => simp only [List.reverse_cons, total_append, total, ih]; omega

theorem total_take_succ (parts : List Bytes) {i : Nat} (h : i < parts.length) :
    total (parts.take (i + 1)) = total (parts.take i) + parts[i].size := by
  rw [List.take_succ_eq_append_getElem h, total_append]
  rfl

theorem total_split (parts : List Bytes) (i : Nat) :
    total parts = total (parts.take i) + total (parts.drop i) := by
  rw [← total_append, List.take_append_drop]

theorem total_const {parts : List Bytes} {n : Nat} (each : ∀ p ∈ parts, p.size = n) :
    total parts = parts.length * n := by
  induction parts with
  | nil => simp [total]
  | cons part rest ih =>
    have first := each part List.mem_cons_self
    have later := ih fun p mem => each p (List.mem_cons_of_mem _ mem)
    rw [total, List.length_cons, Nat.add_mul, first, later]
    omega

namespace NodeDraft

theorem foldl_append (start : Bytes) (parts : List Bytes) :
    parts.foldl (· ++ ·) start = start ++ concat parts := by
  induction parts generalizing start with
  | nil => simp [concat]
  | cons part rest ih =>
    rw [concat, List.foldl_cons, List.foldl_cons, ih, ih (ByteArray.empty ++ part),
      ByteArray.empty_append, ByteArray.append_assoc]

theorem concat_cons (part : Bytes) (rest : List Bytes) :
    concat (part :: rest) = part ++ concat rest := by
  rw [concat, List.foldl_cons, foldl_append, ByteArray.empty_append]

theorem size_concat (parts : List Bytes) : (concat parts).size = total parts := by
  induction parts with
  | nil => rfl
  | cons part rest ih => rw [concat_cons, ByteArray.size_append, ih, total]

/-- The bytes of a part, behind those of the parts in front of it. -/
theorem getPadded_concat {front back : List Bytes} {part : Bytes} {i : Nat} (h : i < part.size) :
    (concat (front ++ part :: back)).getPadded (total front + i) = part.getPadded i := by
  induction front with
  | nil => rw [List.nil_append, concat_cons, total, Nat.zero_add, Bytes.getPadded_append_left h]
  | cons first rest ih =>
    rw [List.cons_append, concat_cons, total, Nat.add_assoc, Bytes.getPadded_append_right, ih]

theorem getPadded_group {front group back : List Bytes} {i j : Nat} (h : i < group.length)
    (inside : j < group[i].size) :
    (concat (front ++ group ++ back)).getPadded (total front + total (group.take i) + j)
      = group[i].getPadded j := by
  have split : front ++ group ++ back
      = (front ++ group.take i) ++ group[i] :: (group.drop (i + 1) ++ back) := by
    conv => lhs; rw [← List.take_append_drop i group, List.drop_eq_getElem_cons h]
    simp only [List.append_assoc, List.cons_append]
  rw [split, ← total_append, getPadded_concat inside]

end NodeDraft

namespace Entry

theorem keyBytes_eq_total (entries : List Entry) :
    keyBytes entries = total (entries.map Prod.fst) := by
  have from_start : ∀ n, entries.foldl (fun n entry => n + entry.1.size) n
      = n + total (entries.map Prod.fst) := by
    induction entries with
    | nil => exact fun n => rfl
    | cons entry rest ih =>
      intro n
      rw [List.foldl_cons, ih, List.map_cons, total]
      omega
  rw [keyBytes, from_start, Nat.zero_add]

theorem valueBytes_eq_total (entries : List Entry) :
    valueBytes entries = total (entries.map Prod.snd) := by
  have from_start : ∀ n, entries.foldl (fun n entry => n + entry.2.size) n
      = n + total (entries.map Prod.snd) := by
    induction entries with
    | nil => exact fun n => rfl
    | cons entry rest ih =>
      intro n
      rw [List.foldl_cons, ih, List.map_cons, total]
      omega
  rw [valueBytes, from_start, Nat.zero_add]

end Entry

namespace NodeDraft

theorem fit16_eq_ok {quantity : String} {n : Nat} {v : UInt16}
    (fitted : fit16 quantity n = .ok v) : v.toNat = n := by
  rw [fit16] at fitted
  split at fitted
  · rename_i small
    cases fitted
    rw [UInt16.toNat_ofNat']
    exact Nat.mod_eq_of_lt small
  · cases fitted

theorem fit32_eq_ok {quantity : String} {n : Nat} {v : UInt32}
    (fitted : fit32 quantity n = .ok v) : v.toNat = n := by
  rw [fit32] at fitted
  split at fitted
  · rename_i small
    cases fitted
    rw [UInt32.toNat_ofNat']
    exact Nat.mod_eq_of_lt small
  · cases fitted

end NodeDraft

/-- The entry sizes that a node of this layout is read with. -/
def EntryLayout.ReadWith (layout : EntryLayout) (sizes : Option EntrySizes) : Prop :=
  match layout with
  | .fixed own => sizes = some own
  | .variable => True

namespace NodeDraft

variable {d : NodeDraft}

structure SlotFor (d : NodeDraft) (entry : Entry) (keys values : Nat) (slot : Slot) : Prop where
  key_range : ∀ sizes, d.layout.ReadWith sizes → slot.keyRange sizes = .ok (keys, entry.1.size)
  value_range : ∀ sizes, d.layout.ReadWith sizes → ∃ off : UInt16, off.toNat = values ∧
    slot.valueRange sizes d.isLeaf = .ok (off, entry.2.size)
  normal : slot.normal d.layout.isFixed = slot

theorem checkLengths_eq_ok {own : EntrySizes} {index : Nat} {entry : Entry}
    (fixed : d.layout = .fixed own) : d.checkLengths index entry = .ok () ↔
      entry.1.size = own.key.toNat ∧ entry.2.size = (own.valueIn d.isLeaf).toNat := by
  simp only [checkLengths, fixed]
  rw [checked_eq_ok, guard_eq_ok, Decidable.not_not, Decidable.not_not]

theorem slotOf_eq_ok {entry : Entry} {index keys values : Nat} {slot : Slot}
    (lengths : d.checkLengths index entry = .ok ())
    (made : d.slotOf entry keys values = .ok slot) : d.SlotFor entry keys values slot := by
  obtain ⟨keyOff, key_eq, made⟩ := bind_eq_ok.mp made
  obtain ⟨valueOff, value_eq, made⟩ := bind_eq_ok.mp made
  have keys_eq := fit16_eq_ok key_eq
  have values_eq := fit16_eq_ok value_eq
  match layout : d.layout with
  | .fixed own =>
    rw [layout] at made
    cases made
    obtain ⟨key_length, value_length⟩ := (checkLengths_eq_ok layout).mp lengths
    refine ⟨?_, ?_, by rw [layout]; rfl⟩
    · intro sizes readWith
      rw [layout] at readWith
      have same : sizes = some own := readWith
      rw [same, Slot.keyRange, keys_eq, key_length]
    · intro sizes readWith
      rw [layout] at readWith
      have same : sizes = some own := readWith
      exact ⟨valueOff, values_eq, by rw [same, Slot.valueRange, value_length]⟩
  | .variable =>
    rw [layout] at made
    obtain ⟨keyLen, keyLen_eq, made⟩ := bind_eq_ok.mp made
    obtain ⟨valueLen, valueLen_eq, made⟩ := bind_eq_ok.mp made
    cases made
    refine ⟨?_, ?_, by rw [layout]; rfl⟩
    · intro sizes _
      rw [Slot.keyRange, keys_eq, fit16_eq_ok keyLen_eq]
    · intro sizes _
      exact ⟨valueOff, values_eq, by rw [Slot.valueRange, fit16_eq_ok valueLen_eq]⟩

theorem slotsFrom_eq_ok {valueEnd index keys values : Nat} {entries : List Entry}
    {slots : List Slot} (made : d.slotsFrom valueEnd index keys values entries = .ok slots) :
    slots.length = entries.length ∧
      ∀ i (h : i < entries.length) (h' : i < slots.length),
        d.SlotFor entries[i] (keys + total ((entries.map Prod.fst).take i))
            (values + total ((entries.map Prod.snd).take (i + 1))) slots[i] ∧
          d.keyStart + keys + total ((entries.map Prod.fst).take (i + 1)) + values +
            total ((entries.map Prod.snd).take (i + 1)) ≤ valueEnd := by
  induction entries generalizing index keys values slots with
  | nil =>
    cases made
    exact ⟨rfl, fun i h => absurd h (by simp)⟩
  | cons entry rest ih =>
    obtain ⟨_, lengths, made⟩ := bind_eq_ok.mp made
    obtain ⟨value_room, made⟩ := checked_eq_ok.mp made
    obtain ⟨entry_room, made⟩ := checked_eq_ok.mp made
    obtain ⟨slot, slot_eq, made⟩ := bind_eq_ok.mp made
    obtain ⟨later, later_eq, made⟩ := bind_eq_ok.mp made
    cases made
    obtain ⟨length_eq, each⟩ := ih later_eq
    refine ⟨by rw [List.length_cons, List.length_cons, length_eq], fun i h h' => ?_⟩
    cases i with
    | zero =>
      simp only [List.map_cons, List.take_succ_cons, List.take_zero, total,
        List.getElem_cons_zero]
      exact ⟨slotOf_eq_ok lengths slot_eq, by omega⟩
    | succ i =>
      obtain ⟨slot_for, room⟩ := each i (by simpa using h) (by simpa using h')
      simp only [List.map_cons, List.take_succ_cons, total, List.getElem_cons_succ]
      rw [← Nat.add_assoc, ← Nat.add_assoc]
      exact ⟨slot_for, by omega⟩

/-- All keys and values fit between the table and the end of the values. -/
theorem entries_fit {valueEnd : Nat} {slots : List Slot} (room : d.keyStart ≤ valueEnd)
    (made : d.slotsFrom valueEnd 0 0 0 d.entries = .ok slots) :
    d.keyStart + Entry.keyBytes d.entries + Entry.valueBytes d.entries ≤ valueEnd := by
  obtain ⟨length_eq, each⟩ := slotsFrom_eq_ok made
  rw [Entry.keyBytes_eq_total, Entry.valueBytes_eq_total]
  cases count : d.entries.length with
  | zero =>
    rw [List.length_eq_zero_iff.mp count]
    simp only [List.map_nil, total]
    omega
  | succ n =>
    obtain ⟨-, fits⟩ := each n (by omega) (by omega)
    rw [List.take_of_length_le (by simp; omega), List.take_of_length_le (by simp; omega)] at fits
    omega

theorem fit16_of_lt {quantity : String} {n : Nat} (small : n < UInt16.size) :
    fit16 quantity n = .ok n.toUInt16 := by
  rw [fit16, if_pos small]

theorem fit32_of_lt {quantity : String} {n : Nat} (small : n < UInt32.size) :
    fit32 quantity n = .ok n.toUInt32 := by
  rw [fit32, if_pos small]

theorem slotOf_succeeds (d : NodeDraft) (entry : Entry) (keys values : Nat)
    (keys_fit : keys < UInt16.size) (values_fit : values < UInt16.size)
    (key_fits : entry.1.size < UInt16.size)
    (value_fits : entry.2.size < UInt16.size) : ∃ slot, d.slotOf entry keys values = .ok slot := by
  rw [slotOf, fit16_of_lt keys_fit, fit16_of_lt values_fit, ok_bind, ok_bind]
  cases d.layout with
  | fixed own => exact ⟨_, rfl⟩
  | «variable» =>
    dsimp only
    rw [fit16_of_lt key_fits, fit16_of_lt value_fits]
    exact ⟨_, rfl⟩

/-- Entries of the right lengths get their slots where there is room for them. -/
theorem slotsFrom_succeeds (valueEnd index keys values : Nat) {entries : List Entry}
    (lengths : ∀ entry ∈ entries, ∀ index, d.checkLengths index entry = .ok ())
    (room : d.keyStart + keys + total (entries.map Prod.fst) + values +
      total (entries.map Prod.snd) ≤ valueEnd) (small : valueEnd ≤ 65536) :
    ∃ slots, d.slotsFrom valueEnd index keys values entries = .ok slots := by
  induction entries generalizing index keys values with
  | nil => exact ⟨[], rfl⟩
  | cons entry rest ih =>
    have limit : UInt16.size = 65536 := rfl
    have head : NodeHeader.size = 56 := rfl
    have front : NodeHeader.size ≤ d.keyStart := Nat.le_add_right _ _
    simp only [List.map_cons, total] at room
    obtain ⟨slot, slot_eq⟩ := slotOf_succeeds d entry keys (values + entry.2.size)
      (by omega) (by omega) (by omega) (by omega)
    obtain ⟨slots, slots_eq⟩ := ih (index + 1) (keys + entry.1.size) (values + entry.2.size)
      (fun e mem => lengths e (List.mem_cons_of_mem _ mem)) (by omega)
    refine ⟨slot :: slots, ?_⟩
    rw [slotsFrom, lengths entry List.mem_cons_self, ok_bind]
    dsimp only
    rw [if_neg (by omega), if_neg (by omega), slot_eq, ok_bind, slots_eq]
    rfl

end NodeDraft

end ObjectStore
