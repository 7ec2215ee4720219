import ObjectStore.Proofs.RoundTrip

/-
What a resolver hands out is what lies on the blocks that it was placed on, and it is believed
only when its checksum holds and its header names what was asked for.
-/
namespace ObjectStore

open Session

namespace Resolver

/-- An object that lies on `count` blocks of an image and passed every check. -/
structure Verified (image : Bytes) (size : BlockSize) (r : Resolver) (o : ResolvedObject)
    (count : Nat) : Prop where
  some_blocks : 0 < count
  held : image.HoldsBlocks size.toNat o.address.toNat count o.bytes
  verified : Object.verifies r.order o.bytes = true
  parsed : ObjectHeader.parse r.order o.bytes = .ok o.header
  named : o.header.oid = o.reference.oid

/-- How an object came to be found where it is, and what its kind of reference asks for. -/
def FoundBy (size : BlockSize) (r : Resolver) (memory : Memory) (o : ResolvedObject)
    (count : Nat) : Reference → Prop
  | .physical address => address ≠ 0 ∧ o.address = address ∧ count = 1
  | .virtual oid xid => reservedIds ≤ oid ∧
      (∃ mapping later, (r.lookupMapping oid xid).perform memory = (.ok mapping, later) ∧
        o.address = mapping.address ∧ count = blocksOf size mapping.size ∧
        mapping.isDeleted = false ∧ mapping.isEncrypted = false ∧ mapping.hasNoHeader = false) ∧
      o.header.xid ≤ xid ∧ o.header.storage? = some .virtual
  | .ephemeral oid => reservedIds ≤ oid ∧
      (∃ chain mapping later, r.checkpoint = some chain ∧
        (chain.resolve r.source oid).perform memory = (.ok mapping, later) ∧
        o.address = mapping.address ∧ count = blocksOf size mapping.size) ∧
      o.header.storage? = some .ephemeral

variable {image : Bytes} {size : BlockSize} {source : BlockSource (Except StoreError)}
  {r : Resolver} {memory later : Memory}

/-- What is handed out lies on the blocks that the kind of reference asks for, is intact and is
the object referred to. -/
theorem resolve_sound (opened : BlockSource.ofBytes image size = .ok source)
    (reads : r.source = source.remembered) {reference : Reference} {o : ResolvedObject}
    (run : (r.resolve reference).perform memory = (.ok o, later)) :
    o.reference = reference ∧ ∃ count, Verified image size r o count ∧
      FoundBy size r memory o count reference := by
  obtain ⟨p, mid, place, ⟨read, fetch⟩, verified, parsed, sound, asked, address_eq⟩ :=
    resolve_eq_ok run
  have held := readPlaced_eq_ok opened reads fetch
  rw [← address_eq] at held
  have named := identityFault?_eq_none sound
  rw [← asked] at named
  have size_eq : 0 < p.blocks.toNat → r.placingSize = size := by
    intro some_blocks
    have block_size : r.source.blockSize = size.bytes := by
      rw [reads]
      exact (BlockSource.ofBytes_eq_ok opened).2.1
    rw [placingSize, block_size, max_one (held.sized some_blocks)]
  refine ⟨asked, p.blocks.toNat, ?_⟩
  cases reference with
  | physical address =>
    obtain ⟨nonzero, rfl, -⟩ := place_physical_eq_ok place
    exact ⟨⟨Nat.one_pos, held, verified, parsed, named⟩, nonzero, address_eq, rfl⟩
  | «virtual» oid xid =>
    obtain ⟨mapping, ⟨later, looked⟩, kept, plain, headed, at_mapping, blocks_eq, some_blocks⟩ :=
      place_virtual_eq_ok place
    rw [size_eq some_blocks] at blocks_eq
    rw [at_mapping] at address_eq
    exact ⟨⟨some_blocks, held, verified, parsed, named⟩, reserved_of_lookup looked,
      ⟨mapping, later, looked, address_eq, blocks_eq, kept, plain, headed⟩,
      virtual_of_identity sound⟩
  | ephemeral oid =>
    obtain ⟨unreserved, chain, mapping, bound, ⟨later, looked⟩, at_mapping, blocks_eq,
      some_blocks⟩ := place_ephemeral_eq_ok place
    rw [size_eq some_blocks] at blocks_eq
    rw [at_mapping] at address_eq
    exact ⟨⟨some_blocks, held, verified, parsed, named⟩, unreserved,
      ⟨chain, mapping, later, bound, looked, address_eq, blocks_eq⟩, ephemeral_of_identity sound⟩

theorem resolve_sound_withdrawn : ∃ (image : Bytes) (size : BlockSize)
    (source : BlockSource (Except StoreError)) (r : Resolver) (memory later : Memory)
    (o : ResolvedObject) (count : Nat), BlockSource.ofBytes image size = .ok source ∧
      r.source = source.remembered ∧
      (r.resolve (.virtual 1024 7)).perform memory = (.ok o, later) ∧
      Verified image size r o count ∧ FoundBy size r memory o count (.virtual 1024 7) := by
  obtain ⟨p, built, contents, size, source, c, later, -, -, makes, found, bound, -, reached⟩ :=
    ContainerDraft.withdrawn_modest.opens
  obtain ⟨o, -, yields⟩ := ContainerDraft.yields_object makes ContainerDraft.withdrawn_modest.legal
    found (by decide) bound (by decide) (by decide) ContainerDraft.withdrawn_early (by decide)
    (by decide) (by decide) (by decide)
  have resolved := (yields later (reached.sound found.opened)).2
  have run : (c.resolver.resolve (.virtual 1024 7)).perform later = (.ok o, _) :=
    Prod.ext resolved rfl
  obtain ⟨-, count, verified, found_by⟩ :=
    resolve_sound found.opened bound.reads.source_eq run
  exact ⟨contents, size, source, c.resolver, later, _, o, count, found.opened,
    bound.reads.source_eq, run, verified, found_by⟩

end Resolver

end ObjectStore
