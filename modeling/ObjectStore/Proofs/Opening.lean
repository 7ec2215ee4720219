import ObjectStore.Container
import ObjectStore.Proofs.ResolverSteps

/-
Opening a container by a superblock: what is known of a container that has been opened, and what
can still fail once the superblock itself has passed.
-/
namespace ObjectStore.Container

open Session

/-- Binding an object map changes nothing else in a resolver. -/
theorem bindObjectMap_eq_ok {r r' : Resolver} {address : BlockAddress} {memory later : Memory}
    (run : (bindObjectMap r address).perform memory = (.ok r', later)) :
    ∃ map, r' = r.withObjectMap map := by
  obtain ⟨_, _, -, run⟩ := perform_bind_ok.mp run
  obtain ⟨_, _, -, run⟩ := perform_bind_ok.mp run
  obtain ⟨map, _, -, run⟩ := perform_bind_ok.mp run
  cases run
  exact ⟨map, rfl⟩

/-- What a container was opened by: a superblock that was read in its order. -/
structure OpenedFrom (source : BlockSource (Except StoreError)) (address : BlockAddress)
    (options : ResolverOptions) (c : Container) : Prop where
  address_eq : c.address = address
  held : ∃ block, source.readBlock address = .ok block ∧
    orderOf options block address = .ok c.order ∧ Object.verifies c.order block = true ∧
    Superblock.parse c.order block = .ok c.superblock
  size_eq : c.superblock.blockSize = source.blockSize
  chained : ∃ chain, MapChain.ofSuperblock c.superblock c.order options.maxMapBlocks = .ok chain ∧
    c.resolver.checkpoint = some chain
  source_eq : c.resolver.source = source.remembered
  options_eq : c.resolver.options = options

variable {source : BlockSource (Except StoreError)} {address : BlockAddress}
  {options : ResolverOptions} {memory later : Memory}

theorem opened_of_openAt {c : Container}
    (run : (openAt source.remembered address options).perform memory = (.ok c, later)) :
    OpenedFrom source address options c := by
  obtain ⟨block, _, read, run⟩ := perform_bind_ok.mp run
  rw [BlockSource.perform_remembered_block] at read
  have stored : source.readBlock address = .ok block := congrArg Prod.fst read
  obtain ⟨order, _, ordered, run⟩ := perform_bind_ok.mp run
  rw [perform_ofExcept] at ordered
  obtain ⟨_, _, verify, run⟩ := perform_bind_ok.mp run
  have verified := (Resolver.verify_eq_ok verify).1
  obtain ⟨s, _, decoded, run⟩ := perform_bind_ok.mp run
  have parsed := (perform_decodedAt_ok decoded).1
  dsimp only at run
  split at run
  · cases run
  · rename_i same_size
    have size_eq : s.blockSize = source.blockSize := Decidable.not_not.mp same_size
    have held : ∃ block, source.readBlock address = .ok block ∧
        orderOf options block address = .ok order ∧ Object.verifies order block = true ∧
        Superblock.parse order block = .ok s :=
      ⟨block, stored, congrArg Prod.fst ordered, verified, parsed⟩
    obtain ⟨chain, _, chained, run⟩ := perform_bind_ok.mp run
    rw [perform_ofExcept] at chained
    have bound : MapChain.ofSuperblock s order options.maxMapBlocks = .ok chain :=
      congrArg Prod.fst chained
    split at run
    · cases run
      exact ⟨rfl, held, size_eq, ⟨chain, bound, rfl⟩, rfl, rfl⟩
    · obtain ⟨r, _, binds, run⟩ := perform_bind_ok.mp run
      obtain ⟨map, rfl⟩ := bindObjectMap_eq_ok binds
      cases run
      exact ⟨rfl, held, size_eq, ⟨chain, bound, rfl⟩, rfl, rfl⟩

def bindSuperblock (source : BlockSource Reading) (address : BlockAddress)
    (options : ResolverOptions) (order : ByteOrder) (s : Superblock) : Reading Container := do
  let chain ← ofExcept (MapChain.ofSuperblock s order options.maxMapBlocks)
  let r := (Resolver.ofSource source order options).withCheckpoint chain
  let r ← if s.objectMap = 0 then pure r else bindObjectMap r s.objectMap
  return ⟨address, s, r⟩

theorem perform_openAt {block : Bytes} {order : ByteOrder} {s : Superblock}
    (stored : source.readBlock address = .ok block)
    (ordered : orderOf options block address = .ok order)
    (verified : Object.verifies order block = true)
    (parsed : Superblock.parse order block = .ok s) (same_size : s.blockSize = source.blockSize)
    (memory : Memory) : (openAt source.remembered address options).perform memory
      = (bindSuperblock source.remembered address options order s).perform
          (memory.note (.block address)) := by
  have read : (source.remembered.readBlock address).perform memory
      = (.ok block, memory.note (.block address)) := by
    rw [BlockSource.perform_remembered_block, stored]
  have order_told : (ofExcept (orderOf options block address) : Reading ByteOrder).perform
      (memory.note (.block address)) = (.ok order, memory.note (.block address)) := by
    rw [perform_ofExcept, ordered]
  have passed : (Object.verify order block address "container superblock" : Reading Unit).perform
      (memory.note (.block address)) = (.ok (), memory.note (.block address)) := by
    rw [Object.verify, if_pos verified]
    rfl
  have decoded : (decodedAt address (Superblock.parse order block) : Reading Superblock).perform
      (memory.note (.block address)) = (.ok s, memory.note (.block address)) := by
    rw [parsed]
    rfl
  unfold openAt
  rw [bind_of_ok read, bind_of_ok order_told, bind_of_ok passed, bind_of_ok decoded]
  dsimp only
  rw [if_neg (fun other => other same_size)]
  rfl

/-- How opening by a superblock ends that itself has passed: the superblock is bound, or its map
chain cannot be built, or its object map cannot be opened. -/
inductive BindsOrFails (source : BlockSource (Except StoreError)) (address : BlockAddress)
    (options : ResolverOptions) (order : ByteOrder) (s : Superblock) (memory : Memory) :
    Except StoreError Container → Prop where
  | opened {c : Container} : c.address = address → c.superblock = s → c.xid = s.header.xid →
      c.order = order → BindsOrFails source address options order s memory (.ok c)
  | chain {err : StoreError} :
      MapChain.ofSuperblock s order options.maxMapBlocks = .error err →
      BindsOrFails source address options order s memory (.error err)
  | objectMap {chain : MapChain} {err : StoreError} :
      MapChain.ofSuperblock s order options.maxMapBlocks = .ok chain → s.objectMap ≠ 0 →
      ((bindObjectMap ((Resolver.ofSource source.remembered order options).withCheckpoint chain)
        s.objectMap).perform memory).1 = .error err →
      BindsOrFails source address options order s memory (.error err)

theorem bindSuperblock_ends (order : ByteOrder) (s : Superblock) :
    BindsOrFails source address options order s memory
      ((bindSuperblock source.remembered address options order s).perform memory).1 := by
  rw [bindSuperblock, perform_bind, perform_ofExcept]
  cases chain_eq : MapChain.ofSuperblock s order options.maxMapBlocks with
  | error err => exact .chain chain_eq
  | ok chain =>
    dsimp only
    split
    · exact .opened rfl rfl rfl rfl
    · rename_i mapped
      rw [perform_bind]
      rcases binds : (bindObjectMap
        ((Resolver.ofSource source.remembered order options).withCheckpoint chain)
        s.objectMap).perform memory with ⟨err | r, later⟩
      · exact .objectMap chain_eq mapped (congrArg Prod.fst binds)
      · obtain ⟨map, rfl⟩ := bindObjectMap_eq_ok binds
        exact .opened rfl rfl rfl rfl

end ObjectStore.Container
