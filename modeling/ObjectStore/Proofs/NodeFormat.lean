import ObjectStore.Proofs.Outcomes
import ObjectStore.Proofs.StoredFields
import ObjectStore.Tree.Node

/-
Which blocks are nodes. A block is parsed exactly if the areas that its header declares lie in
order before the end of the values, and the node then holds the header, and in a root the footer,
that are stored in the block.
-/
namespace ObjectStore.Tree

/-- What a header has to say for its block of `size` bytes to be a node. -/
structure NodeHeader.Fits (h : NodeHeader) (size : Nat) : Prop where
  header_room : 56 ≤ size
  leaf_iff_level : h.isLeaf = true ↔ h.level = 0
  footer_room : h.isRoot = true → 56 ≤ Node.valueEndIn h size
  table_room : 56 + h.tableSpace.off.toNat + h.tableSpace.len.toNat ≤ Node.valueEndIn h size
  slots_room : h.keyCount.toNat * (if h.isFixed then 4 else 8) ≤ h.tableSpace.len.toNat
  free_room : Node.keyStartIn h + h.freeSpace.off.toNat + h.freeSpace.len.toNat
    ≤ Node.valueEndIn h size

namespace Node

structure Holds (n : Node) (e : ByteOrder) (b : Bytes) : Prop where
  order_eq : n.order = e
  bytes_eq : n.bytes = b
  header_eq : n.header = NodeHeader.stored e b 0
  footer_eq : n.footer = if n.isRoot then some (Footer.stored e b (b.size - 40)) else none

theorem Holds.unique {n m : Node} {e : ByteOrder} {b : Bytes} (holds : n.Holds e b)
    (other : m.Holds e b) : n = m := by
  have order_eq := holds.order_eq.trans other.order_eq.symm
  have bytes_eq := holds.bytes_eq.trans other.bytes_eq.symm
  have header_eq := holds.header_eq.trans other.header_eq.symm
  have footer_eq : n.footer = m.footer := by
    rw [holds.footer_eq, other.footer_eq, isRoot, isRoot, header_eq]
  cases n
  cases m
  simp_all only

theorem checkAreas_eq_ok {h : NodeHeader} {valueEnd : Nat} : checkAreas h valueEnd = .ok () ↔
    keyStartIn h ≤ valueEnd ∧
      h.keyCount.toNat * Slot.sizeOf h.isFixed ≤ h.tableSpace.len.toNat ∧
      freeEndIn h ≤ valueEnd := by
  unfold checkAreas
  rw [checked_eq_ok, checked_eq_ok, guard_eq_ok]
  simp only [Nat.not_lt]

theorem parseHeader_eq_ok {e : ByteOrder} {b : Bytes} {h : NodeHeader} :
    NodeHeader.parse e b = .ok h ↔ 56 ≤ b.size ∧ h = NodeHeader.stored e b 0 :=
  NodeHeader.codec_shows.decode_eq_ok (by decide)

theorem ofRoot_eq_ok {e : ByteOrder} {b : Bytes} {f : Footer} :
    Footer.ofRoot e b = .ok f ↔ 40 ≤ b.size ∧ f = Footer.stored e b (b.size - 40) := by
  have read : 40 ≤ b.size →
      Footer.parse e (b.drop (b.size - 40)) = .ok (Footer.stored e b (b.size - 40)) := by
    intro room
    have width : Footer.codec.size = 40 := rfl
    have size_eq := b.size_drop (b.size - 40)
    rw [← Footer.stored_drop]
    exact Footer.codec_shows e _ 0 (by omega) (by decide)
  unfold Footer.ofRoot
  rw [bind_eq_ok]
  constructor
  · rintro ⟨_, room, parsed⟩
    have fits := Bytes.require_eq_ok.mp room
    exact ⟨fits, Except.ok.inj (parsed.symm.trans (read fits))⟩
  · rintro ⟨fits, rfl⟩
    exact ⟨(), Bytes.require_eq_ok.mpr fits, read fits⟩

theorem footerOf_eq_ok {e : ByteOrder} {h : NodeHeader} {b : Bytes} {f : Option Footer} :
    footerOf e h b = .ok f ↔ (h.isRoot = true → 96 ≤ b.size) ∧
      f = if h.isRoot then some (Footer.stored e b (b.size - 40)) else none := by
  unfold footerOf
  by_cases root : h.isRoot = true
  · simp only [root, if_true, forall_const]
    rw [bind_eq_ok]
    constructor
    · rintro ⟨footer, read, rest⟩
      obtain ⟨_, room, same⟩ := bind_eq_ok.mp rest
      obtain ⟨-, rfl⟩ := ofRoot_eq_ok.mp read
      exact ⟨Bytes.require_eq_ok.mp room, (Except.ok.inj same).symm⟩
    · rintro ⟨both, rfl⟩
      exact ⟨_, ofRoot_eq_ok.mpr ⟨by omega, rfl⟩,
        bind_eq_ok.mpr ⟨(), Bytes.require_eq_ok.mpr both, rfl⟩⟩
  · simp only [root, Bool.false_eq_true, if_false, false_implies, true_and]
    constructor
    · intro same
      exact (Except.ok.inj same).symm
    · intro same
      rw [same]
      rfl

theorem valueEndIn_root {h : NodeHeader} {size : Nat} (root : h.isRoot = true) :
    56 ≤ valueEndIn h size ↔ 96 ≤ size := by
  have width : Footer.size = 40 := rfl
  rw [valueEndIn, if_pos root]
  omega

/-- The blocks that are nodes, and the nodes that they are. -/
theorem parse_eq_ok {e : ByteOrder} {b : Bytes} {n : Node} :
    Node.parse e b = .ok n ↔ (NodeHeader.stored e b 0).Fits b.size ∧ n.Holds e b := by
  unfold parse
  rw [bind_eq_ok]
  constructor
  · rintro ⟨header, read, rest⟩
    obtain ⟨room, rfl⟩ := parseHeader_eq_ok.mp read
    split at rest
    · next leaf =>
      obtain ⟨footer, footer_eq, rest⟩ := bind_eq_ok.mp rest
      obtain ⟨_, areas, same⟩ := bind_eq_ok.mp rest
      obtain ⟨both, footer_is⟩ := footerOf_eq_ok.mp footer_eq
      obtain ⟨table, slots, free⟩ := checkAreas_eq_ok.mp areas
      cases same
      exact ⟨⟨room, leaf, fun root => (valueEndIn_root root).mpr (both root), table, slots, free⟩,
        rfl, rfl, rfl, footer_is⟩
    · cases rest
  · rintro ⟨fits, holds⟩
    obtain ⟨order, bytes, header, footer, leaf⟩ := n
    obtain ⟨order_eq, bytes_eq, header_eq, footer_eq⟩ := holds
    dsimp only [isRoot] at order_eq bytes_eq header_eq footer_eq
    subst order_eq bytes_eq header_eq
    refine ⟨_, parseHeader_eq_ok.mpr ⟨fits.header_room, rfl⟩, ?_⟩
    rw [dif_pos leaf]
    refine bind_eq_ok.mpr ⟨footer, footerOf_eq_ok.mpr ⟨?_, footer_eq⟩,
      bind_eq_ok.mpr ⟨(), ?_, rfl⟩⟩
    · intro root
      exact (valueEndIn_root root).mp (fits.footer_room root)
    · exact checkAreas_eq_ok.mpr ⟨fits.table_room, fits.slots_room, fits.free_room⟩

theorem parses_iff (e : ByteOrder) (b : Bytes) :
    (∃ n, Node.parse e b = .ok n) ↔ (NodeHeader.stored e b 0).Fits b.size := by
  constructor
  · rintro ⟨n, parsed⟩
    exact (parse_eq_ok.mp parsed).1
  · intro fits
    refine ⟨⟨e, b, NodeHeader.stored e b 0, if (NodeHeader.stored e b 0).isRoot then
      some (Footer.stored e b (b.size - 40)) else none, fits.leaf_iff_level⟩, ?_⟩
    exact parse_eq_ok.mpr ⟨fits, rfl, rfl, rfl, rfl⟩

end Node

end ObjectStore.Tree
