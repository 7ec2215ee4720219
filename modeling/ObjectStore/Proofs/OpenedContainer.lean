import ObjectStore.Container
import ObjectStore.Proofs.BuiltPlaces
import ObjectStore.Proofs.Remembered

/-
Reading a container that has been built, with whatever was read before still remembered.
-/
namespace ObjectStore

open Session

section Reads

variable {contents : Bytes} {size : BlockSize} {e : ByteOrder}
  {source : BlockSource (Except StoreError)} {r : Resolver}

theorem yields_block {address : BlockAddress} {bytes : Bytes}
    (stored : source.readBlock address = .ok bytes) :
    Yields (Memory.Sound contents size e) (source.remembered.readBlock address) (.ok bytes) := by
  intro memory sound
  rw [BlockSource.perform_remembered_block]
  exact ⟨sound, stored⟩

theorem yields_verify {I : Memory → Prop} {order : ByteOrder} {b : Bytes}
    (verified : Object.verifies order b = true) (block : BlockAddress) (what : String) :
    Yields I (Object.verify order b block what) (.ok ()) := by
  rw [Object.verify, if_pos verified]
  exact yields_pure ()

namespace Resolver

theorem yields_checkIdentity {I : Memory → Prop} {reference : Reference} {h : ObjectHeader}
    (sound : identityFault? reference h = none) (address : BlockAddress) :
    Yields I (checkIdentity reference address h) (.ok ()) := by
  rw [checkIdentity, sound]
  exact yields_pure ()

theorem yields_rejectReserved {I : Memory → Prop} {oid : ObjectId} (free : reservedIds ≤ oid) :
    Yields I (rejectReserved oid) (.ok ()) := by
  have not_reserved : isReserved oid = false := by
    simpa [isReserved] using free
  rw [rejectReserved, not_reserved]
  exact yields_pure ()

theorem yields_readPlaced (reads : r.Reads source e) {address : BlockAddress} {bytes : Bytes}
    (stored : source.readBlock address = .ok bytes) :
    Yields (Memory.Sound contents size e) (r.readPlaced ⟨address, 1⟩) (.ok bytes) := by
  rw [readPlaced, if_pos rfl, reads.source_eq]
  exact yields_block stored

theorem yields_place_physical {I : Memory → Prop} {lookup : Lookup} {address : BlockAddress}
    (nonzero : address ≠ 0) :
    Yields I (r.place lookup (.physical address)) (.ok ⟨address, 1⟩) :=
  yields_checked nonzero (yields_pure _)

/-- An object of one block that has been placed and is what it should be. -/
theorem yields_resolve (reads : r.Reads source e) {reference : Reference}
    {address : BlockAddress} {bytes : Bytes} {h : ObjectHeader}
    (placed : Yields (Memory.Sound contents size e) (r.place r.lookupMapping reference)
      (.ok ⟨address, 1⟩))
    (stored : source.readBlock address = .ok bytes) (verified : Object.verifies e bytes = true)
    (parsed : ObjectHeader.parse e bytes = .ok h) (sound : identityFault? reference h = none) :
    Yields (Memory.Sound contents size e) (r.resolve reference)
      (.ok ⟨reference, address, h, bytes⟩) := by
  refine placed.bind ((yields_readPlaced reads stored).bind ?_)
  rw [← reads.order_eq] at verified parsed
  refine (yields_verify verified _ _).bind ((yields_decodedAt _ parsed).bind ?_)
  exact (yields_checkIdentity sound _).bind (yields_pure _)

end Resolver

end Reads

section Nodes

variable {contents : Bytes} {size : BlockSize} {e : ByteOrder}
  {source : BlockSource (Except StoreError)} {r : Resolver}

structure NodeAt (contents : Bytes) (size : BlockSize) (e : ByteOrder)
    (source : BlockSource (Except StoreError)) (address : BlockAddress) (node : Tree.Node) :
    Prop where
  nonzero : address ≠ 0
  stored : source.readBlock address = .ok node.bytes
  held : contents.HoldsBlocks size.toNat address.toNat 1 node.bytes
  roomy : ObjectHeader.size ≤ size.toNat
  addressable : contents.size < Bytes.addressLimit
  verified : Object.verifies e node.bytes = true
  parsed : Tree.Node.parse e node.bytes = .ok node
  named : node.object.oid = address
  physical : node.object.storage? = some .physical
  coded : node.object.typeCode = TypeWord.tree ∨ node.object.typeCode = TypeWord.treeNode

/-- A physical node that a block holds and that names the block. -/
theorem NodeAt.of_read (opened : BlockSource.ofBytes contents size = .ok source)
    (roomy : ObjectHeader.size ≤ size.toNat) (addressable : contents.size < Bytes.addressLimit)
    {address : BlockAddress} {bytes : Bytes} {node : Tree.Node} (nonzero : address ≠ 0)
    (stored : source.readBlock address = .ok bytes) (verified : Object.verifies e bytes = true)
    (parsed : Tree.Node.parse e bytes = .ok node) (named : node.object.oid = address)
    (physical : node.object.storage? = some .physical)
    (coded : node.object.typeCode = TypeWord.tree ∨ node.object.typeCode = TypeWord.treeNode) :
    NodeAt contents size e source address node := by
  have held := BlockSource.readBlock_holds opened stored
  obtain ⟨bytes_eq, -⟩ := node_of_parse parsed
  rw [← bytes_eq] at stored held verified parsed
  exact ⟨nonzero, stored, held, roomy, addressable, verified, parsed, named, physical, coded⟩

/-- A physical reference is the only one under which a physical object passes. -/
theorem physical_of_identity {reference : Reference} {h : ObjectHeader}
    (physical : h.storage? = some .physical) (sound : identityFault? reference h = none) :
    ∃ block, reference = .physical block := by
  cases reference with
  | physical block => exact ⟨block, rfl⟩
  | «virtual» oid xid =>
    have stored := (Resolver.virtual_of_identity sound).2
    rw [physical] at stored
    cases stored
  | ephemeral oid =>
    have stored := Resolver.ephemeral_of_identity sound
    rw [physical] at stored
    cases stored

/-- The only node that can be remembered for a block with a physical node is that node: whatever
starts there is a physical object, and such an object is read as one block. -/
theorem NodeAt.unique {address : BlockAddress} {node other : Tree.Node}
    (at_block : NodeAt contents size e source address node)
    (genuine : Genuine contents size e address other) : other = node := by
  obtain ⟨reference, count, loaded⟩ := genuine
  -- Both start with the same bytes, over however many blocks the other was read.
  have first : Bytes.SameAt other.bytes 0 node.bytes 0 ObjectHeader.codec.size := by
    have length_eq := loaded.held.length_eq
    have node_length := at_block.held.length_eq
    have inside := loaded.held.inside
    have node_inside := at_block.held.inside
    have roomy := at_block.roomy
    have addressable := at_block.addressable
    have header_size : ObjectHeader.codec.size = ObjectHeader.size := rfl
    have longer := Nat.mul_le_mul_right size.toNat loaded.some_blocks
    rw [Nat.add_mul] at inside node_inside
    refine ⟨by omega, by omega, by omega, by omega, fun i lt => ?_⟩
    rw [Nat.zero_add, loaded.held.byte_eq (by omega), at_block.held.byte_eq (by omega)]
  have object_eq : other.object = node.object := by
    obtain ⟨-, -, read⟩ := node_of_parse at_block.parsed
    obtain ⟨-, -, other_read⟩ := node_of_parse loaded.parsed
    rw [ObjectHeader.codec_lawful.same_bytes first, read] at other_read
    exact (Except.ok.inj other_read).symm
  obtain ⟨block, same⟩ := physical_of_identity (by rw [object_eq]; exact at_block.physical)
    loaded.identified
  obtain ⟨-, one⟩ := loaded.in_place block same
  have bytes_eq : other.bytes = node.bytes := by
    rw [loaded.held.bytes_eq, at_block.held.bytes_eq, one]
  have parsed := loaded.parsed
  rw [bytes_eq, at_block.parsed] at parsed
  exact (Except.ok.inj parsed).symm

theorem NodeAt.genuine {address : BlockAddress} {node : Tree.Node}
    (at_block : NodeAt contents size e source address node) :
    Genuine contents size e address node := by
  refine ⟨.physical address, 1, Nat.one_pos, at_block.held, at_block.verified, at_block.parsed,
    ?_, fun block same => ?_⟩
  · rw [identityFault?, at_block.named, if_neg (fun other => other rfl)]
  · cases same
    exact ⟨rfl, rfl⟩

theorem NodeAt.identified {address : BlockAddress} {node : Tree.Node}
    (at_block : NodeAt contents size e source address node) :
    identityFault? (.physical address) node.object = none := by
  rw [identityFault?, at_block.named, if_neg (fun other => other rfl)]

theorem Resolver.yields_loadNode (reads : r.Reads source e) {address : BlockAddress}
    {node : Tree.Node} (at_block : NodeAt contents size e source address node) :
    Yields (Memory.Sound contents size e) (r.loadNode (.physical address) ⟨address, 1⟩)
      (.ok node) := by
  apply (yields_readPlaced reads at_block.stored).bind
  have verified := at_block.verified
  have parsed := at_block.parsed
  rw [← reads.order_eq] at verified parsed
  refine (yields_verify verified _ _).bind ((yields_decodedAt _ parsed).bind ?_)
  refine (yields_checkIdentity at_block.identified _).bind (yields_checked ?_ (yields_pure _))
  rintro ⟨not_tree, not_node⟩
  rcases at_block.coded with tree | below
  · exact not_tree tree
  · exact not_node below

/-- A node is read as what lies on its block, whether or not it is remembered. -/
theorem Resolver.yields_readNodeWith (reads : r.Reads source e) (lookup : Lookup)
    {address : BlockAddress} {node : Tree.Node}
    (at_block : NodeAt contents size e source address node) :
    Yields (Memory.Sound contents size e) (r.readNodeWith lookup (.physical address))
      (.ok ⟨address, node⟩) := by
  apply (yields_place_physical at_block.nonzero).bind
  have remembered : Run (Memory.Sound contents size e) (cached address) fun result =>
      ∃ found, result = .ok found ∧ ∀ n, found = some n → n = node := by
    intro memory sound
    have kept := Cache.All.get sound address
    exact ⟨kept.1, _, rfl, fun n same => at_block.unique (kept.2 n same)⟩
  refine Run.bind remembered ?_ ?_
  · rintro found ⟨found', same, known⟩
    cases same
    cases found with
    | some n =>
      have n_eq := known n rfl
      subst n_eq
      exact (yields_checkIdentity at_block.identified _).bind (yields_pure _)
    | none =>
      apply (yields_loadNode reads at_block).bind
      have keeps : Yields (Memory.Sound contents size e) (keep address node) (.ok ()) :=
        fun _ sound => ⟨Cache.All.insert sound at_block.genuine, rfl⟩
      exact keeps.bind (yields_pure _)
  · rintro err ⟨found, same, -⟩
    cases same

end Nodes

end ObjectStore
