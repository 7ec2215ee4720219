import Mathlib.Algebra.GroupWithZero.Nat
import ObjectStore.Proofs.BuiltNode
import ObjectStore.Proofs.NodeFormat

/-
Drafts come back whole. What is built from a draft is parsed to a node that says everything the
draft says, whose used areas are filled by the keys and the values, and whose footer, where the
draft gives none, describes the draft.
-/
namespace ObjectStore

open ObjectStore.Tree

theorem total_eq_sum (parts : List Bytes) : total parts = (parts.map ByteArray.size).sum := by
  induction parts with
  | nil => rfl
  | cons part rest ih => simp [total, ih]

namespace Entry

structure Longest (lengths : List Nat) (n : Nat) : Prop where
  bounds : ∀ length ∈ lengths, length ≤ n
  reached : n ∈ lengths ∨ lengths = [] ∧ n = 0

theorem longest_foldl (measure : Entry → Nat) (entries : List Entry) :
    Longest (entries.map measure)
      (entries.foldl (fun longest entry => max longest (measure entry)) 0) := by
  rw [← List.foldl_map]
  generalize entries.map measure = lengths
  have greatest : (0 :: lengths).max? = some (lengths.foldl max 0) := List.max?_cons'
  obtain ⟨reached, bounds⟩ := List.max?_eq_some_iff.mp greatest
  constructor
  case bounds =>
    intro length mem
    exact bounds length (List.mem_cons_of_mem _ mem)
  case reached =>
    rcases List.mem_cons.mp reached with zero | mem
    · cases lengths with
      | nil => exact .inr ⟨rfl, rfl⟩
      | cons first rest =>
        have short := bounds first (List.mem_cons_of_mem _ List.mem_cons_self)
        have none_longer : first = 0 := by omega
        rw [zero, none_longer]
        exact .inl List.mem_cons_self
    · exact .inl mem

end Entry

namespace NodeDraft

/-- The flags of a footer, which repeat the storage class of its tree. -/
def storageFlags : StorageClass → UInt32
  | .virtual => 0
  | .ephemeral => 0x08
  | .physical => 0x10

structure Describes (d : NodeDraft) (f : Footer) : Prop where
  flags_eq : d.object.storage?.map storageFlags = some f.flags
  nodeSize_eq : f.nodeSize.toNat = d.nodeSize
  sizes_eq : EntrySizes.ofFooter f = d.layout.stated
  longest_key : Entry.Longest (d.entries.map fun entry => entry.1.size) f.longestKey.toNat
  longest_value : Entry.Longest (d.entries.map fun entry => entry.2.size) f.longestValue.toNat
  keyCount_eq : f.keyCount.toNat = d.entries.length
  nodeCount_eq : f.nodeCount = 1

variable {d : NodeDraft} {bytes : Bytes}

theorem derivedFooter_describes {f : Footer} (derived : d.derivedFooter = .ok f)
    (few : d.entries.length < UInt64.size) : d.Describes f := by
  unfold derivedFooter at derived
  cases stored : d.object.storage? with
  | none =>
    rw [stored] at derived
    cases derived
  | some storage =>
    rw [stored] at derived
    obtain ⟨nodeSize, nodeSize_eq, derived⟩ := bind_eq_ok.mp derived
    obtain ⟨longestKey, longestKey_eq, derived⟩ := bind_eq_ok.mp derived
    obtain ⟨longestValue, longestValue_eq, derived⟩ := bind_eq_ok.mp derived
    cases derived
    constructor
    case flags_eq =>
      rw [stored]
      cases storage <;> rfl
    case nodeSize_eq => exact fit32_eq_ok nodeSize_eq
    case sizes_eq => rfl
    case longest_key =>
      dsimp only
      rw [fit32_eq_ok longestKey_eq]
      exact Entry.longest_foldl _ d.entries
    case longest_value =>
      dsimp only
      rw [fit32_eq_ok longestValue_eq]
      exact Entry.longest_foldl _ d.entries
    case keyCount_eq => exact Nat.mod_eq_of_lt few
    case nodeCount_eq => rfl

structure ComesBack (d : NodeDraft) (bytes : Bytes) (n : Node) : Prop extends d.Reads bytes n where
  fixed_eq : n.isFixed = d.layout.isFixed
  extra_eq : n.header.flags &&& ~~~impliedFlags = d.flags
  footer_given : d.root = true → ∀ f, d.footer = some f → n.footer = some f
  footer_derived : d.root = true → d.footer = none → ∃ f, n.footer = some f ∧ d.Describes f
  footer_none : d.root = false → n.footer = none
  keyArea_size : n.keyArea.size = (d.entries.map fun entry => entry.1.size).sum
  valueArea_size : n.valueArea.size = (d.entries.map fun entry => entry.2.size).sum

namespace Made

variable {n : Node} {valueEnd : Nat} {slots : List Slot} {header : NodeHeader} {footer : Bytes}
  {sum : UInt64} (m : d.Made bytes n valueEnd slots header footer sum)

include m

theorem freeStart_eq : n.freeStart = d.keyStart + Entry.keyBytes d.entries := by
  have off_eq : n.header.freeSpace.off.toNat = Entry.keyBytes d.entries := by
    rw [m.header_eq]
    exact m.laid.heads.free_off
  have keyStart_eq : Node.keyStartIn n.header = d.keyStart := m.keyStart_eq
  rw [Node.freeStart, Node.freeStartIn, keyStart_eq, off_eq]

theorem freeEnd_eq : n.freeEnd = n.freeStart + d.freeSize valueEnd := by
  have len_eq : n.header.freeSpace.len.toNat = d.freeSize valueEnd := by
    rw [m.header_eq]
    exact m.laid.heads.free_len
  rw [← len_eq]
  rfl

theorem areas_used : n.keyArea.size = Entry.keyBytes d.entries ∧
    n.valueArea.size = Entry.valueBytes d.entries := by
  have keyStart_eq := m.keyStart_eq
  have freeStart_eq := m.freeStart_eq
  have freeEnd_eq := m.freeEnd_eq
  have valueEnd_eq := m.valueEnd_eq
  have fit := entries_fit m.laid.table_room m.laid.slots_eq
  have footer_size := m.laid.size_footer
  have size_eq : n.bytes.size = d.nodeSize := by
    rw [m.bytes_eq, m.sealed_block.size_eq, m.laid.size_block]
  rw [freeSize] at freeEnd_eq
  constructor
  · rw [Node.keyArea, Bytes.size_extract_of_le (by omega)]
    omega
  · rw [Node.valueArea, Bytes.size_extract_of_le (by omega)]
    omega

theorem few_entries (small : d.nodeSize ≤ largestNode) : d.entries.length < UInt64.size := by
  have room := m.laid.table_room
  have footer_size := m.laid.size_footer
  have limit : largestNode = 65536 := rfl
  have word : UInt64.size = 18446744073709551616 := rfl
  have wide : 1 ≤ d.layout.slotSize := by
    rw [EntryLayout.slotSize]
    cases d.layout.isFixed <;> decide
  have slots := Nat.mul_le_mul_left d.entries.length wide
  rw [keyStart] at room
  omega

theorem comesBack (extra : d.flags &&& impliedFlags = 0) (small : d.nodeSize ≤ largestNode) :
    d.ComesBack bytes n := by
  obtain ⟨root_eq, -, fixed_eq⟩ := nodeFlags_eq extra m.flags_eq
  obtain ⟨key_area, value_area⟩ := m.areas_used
  constructor
  case toReads => exact m.reads extra small
  case fixed_eq => exact fixed_eq
  case extra_eq =>
    rw [m.flags_eq]
    exact nodeFlags_beyond extra
  case footer_given =>
    intro root f given
    obtain ⟨f', is_footer, footer_eq⟩ := m.footer_eq root
    rcases is_footer with same | ⟨none_given, -⟩
    · rw [footer_eq, ← same, given]
    · rw [given] at none_given
      cases none_given
  case footer_derived =>
    intro root none_given
    obtain ⟨f, is_footer, footer_eq⟩ := m.footer_eq root
    rcases is_footer with given | ⟨-, derived⟩
    · rw [none_given] at given
      cases given
    · exact ⟨f, footer_eq, derivedFooter_describes derived (m.few_entries small)⟩
  case footer_none =>
    intro not_root
    have holds := (Node.parse_eq_ok.mp m.parsed).2
    have plain : n.isRoot = false := root_eq.trans not_root
    rw [holds.footer_eq, plain]
    rfl
  case keyArea_size =>
    rw [key_area, Entry.keyBytes_eq_total, total_eq_sum, List.map_map]
    rfl
  case valueArea_size =>
    rw [value_area, Entry.valueBytes_eq_total, total_eq_sum, List.map_map]
    rfl

end Made

/-- Whatever is built is parsed to a node that says what was drafted. -/
theorem build_comes_back (built : d.build = .ok bytes) (small : d.nodeSize ≤ 65536)
    (extra : d.flags &&& impliedFlags = 0) : ∃ n, d.ComesBack bytes n := by
  obtain ⟨n, _, _, _, _, _, m⟩ := build_made built extra small
  exact ⟨n, m.comesBack extra small⟩

def fullRoot : NodeDraft :=
  { blank .big 116 with
    root := true
    flags := NodeHeader.hashedFlag ||| NodeHeader.noHeaderFlag
    entries := [(⟨#[1, 2]⟩, ByteArray.empty), (ByteArray.empty, ⟨#[3, 4]⟩)] }

theorem build_comes_back_full : ∃ bytes n, fullRoot.build = .ok bytes ∧
    fullRoot.ComesBack bytes n ∧ n.value none 0 = .ok ByteArray.empty ∧
    n.key none 1 = .ok ByteArray.empty ∧ n.value none 1 = .ok ⟨#[3, 4]⟩ := by
  obtain ⟨bytes, built⟩ := build_succeeds (d := fullRoot) (by decide) (fun _ _ _ => rfl)
    (by decide) fun _ => ⟨_, .inr ⟨rfl, rfl⟩⟩
  obtain ⟨n, back⟩ := build_comes_back built (by decide) (by decide)
  exact ⟨bytes, n, built, back, back.value_eq none trivial 0 (by decide),
    back.key_eq none trivial 1 (by decide), back.value_eq none trivial 1 (by decide)⟩

end NodeDraft

end ObjectStore
