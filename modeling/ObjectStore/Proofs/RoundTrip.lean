import ObjectStore.Proofs.Buildable
import ObjectStore.Proofs.BuiltReads
import ObjectStore.Proofs.ChainScans

/-
A container that is built and opened again answers with what it was built from. This takes every
encoder together with its decoder, in both byte orders, and whatever was read before is still
remembered.
-/
namespace ObjectStore

open Session

theorem MapChain.ofSuperblock_eq {s : Superblock} (contiguous : s.isDescContiguous = true)
    (some_blocks : s.descBlocks ≠ 0) (e : ByteOrder) (limit : Option UInt32) :
    MapChain.ofSuperblock s e limit = .ok ⟨e, s.descBase, s.descBlocks, s.descIndex,
      min (limit.getD s.descLength) s.descBlocks⟩ :=
  ofSuperblock_eq_ok_iff.mpr ⟨contiguous, some_blocks, rfl⟩

/-- A superblock as it is read back, with its checksum and all its slots. -/
def Superblock.stored (s : Superblock) (sum : UInt64) : Superblock :=
  { s.full with header := { s.header with checksum := sum } }

namespace ContainerDraft

variable {d : ContainerDraft} {p : ContainerParts} {built : ContainerImage} {contents : Bytes}
  {size : BlockSize} {source : BlockSource (Except StoreError)} {r : Resolver}

theorem contiguous_ring {s : Superblock} (is : s = d.closing ∨ s = d.olderSuperblockFor d.closing) :
    s.isDescContiguous = true := by
  have one_run : (!hasFlag descBlocks Superblock.scatteredFlag) = true := by decide
  rcases is with rfl | rfl
  · exact one_run
  · exact one_run

def chainOf (d : ContainerDraft) (s : Superblock) : MapChain :=
  ⟨d.order, s.descBase, s.descBlocks, s.descIndex, min s.descLength s.descBlocks⟩

structure OpenedBy (d : ContainerDraft) (p : ContainerParts)
    (source : BlockSource (Except StoreError)) (s : Superblock) (bytes : Bytes) (c : Container) :
    Prop where
  bound : Bound d p source c.resolver
  parsed : Superblock.parse d.order bytes = .ok c.superblock
  superblock_eq : ∃ sum, c.superblock = s.stored sum
  checkpoint_eq : c.resolver.checkpoint = some (d.chainOf s)

structure Answers (d : ContainerDraft) (r : Resolver) (memory : Memory) : Prop where
  finds : ∀ oid xid entry, reservedIds ≤ oid → d.Newest oid xid entry →
    ((r.lookupMapping oid xid).perform memory).1 = .ok entry.2
  misses : ∀ oid xid, reservedIds ≤ oid →
    ((∃ text, ((r.lookupMapping oid xid).perform memory).1 = .error (.keyNotFound text)) ↔
      ¬∃ entry, d.Newest oid xid entry)
  delivers : ∀ oid xid i (h : i < d.objects.length), reservedIds ≤ oid →
    d.Newest oid xid (d.objectVersion i h) → (d.objectVersion i h).2.isDeleted = false →
    (d.objectVersion i h).2.isEncrypted = false → (d.objectVersion i h).2.hasNoHeader = false →
    ∃ o, ((r.resolve (.virtual oid xid)).perform memory).1 = .ok o ∧
      d.Delivered i h (.virtual oid xid) o
  withholds : ∀ oid xid entry, reservedIds ≤ oid → d.Newest oid xid entry →
    entry.2.isDeleted = true →
    ∃ text, ((r.resolve (.virtual oid xid)).perform memory).1 = .error (.keyNotFound text)
  refuses : ∀ oid xid entry, reservedIds ≤ oid → d.Newest oid xid entry →
    entry.2.isDeleted = false → (entry.2.isEncrypted = true ∨ entry.2.hasNoHeader = true) →
    ∃ text, ((r.resolve (.virtual oid xid)).perform memory).1 = .error (.unsupported text)

section Opened

variable (makes : d.Makes p built) (legal : d.blockSize ∈ BlockSize.legal)
  (found : Found d p contents size source)

include makes legal found in
theorem yields_bindObjectMap (reads : r.Reads source d.order) : ∃ descriptor,
    descriptor.treeOid = p.tree.root.address ∧
    ObjectMap.ofDescriptor mapAddress d.order descriptor
      = .ok ⟨mapAddress, d.order, descriptor, Tree.standardDepth⟩ ∧
    Yields (Memory.Sound contents size d.order) (Container.bindObjectMap r mapAddress)
      (.ok (r.withObjectMap ⟨mapAddress, d.order, descriptor, Tree.standardDepth⟩)) := by
  obtain ⟨roomy, -, addressable⟩ := size_bounds legal
  obtain ⟨-, verified, ⟨h, parsed, named⟩, descriptor, decoded, tree_oid, -, map_eq⟩ :=
    ObjectDraft.mapDescriptor_reads roomy addressable makes.descriptor_eq
  have stored := found.map
  have nonzero : mapAddress ≠ 0 := by decide
  have sound : identityFault? (.physical mapAddress) h = none := by
    rw [identityFault?, named, if_neg (fun other => other rfl)]
  have resolved : Yields (Memory.Sound contents size d.order) (r.resolve (.physical mapAddress))
      (.ok ⟨.physical mapAddress, mapAddress, h, p.descriptor⟩) :=
    Resolver.yields_resolve reads (Resolver.yields_place_physical nonzero) stored verified parsed
      sound
  refine ⟨descriptor, tree_oid, map_eq, resolved.bind ?_⟩
  rw [← reads.order_eq] at decoded map_eq
  refine (yields_decodedAt _ decoded).bind ((yields_ofExcept map_eq).bind ?_)
  rw [reads.order_eq]
  exact yields_pure _

include legal in
/-- What matters in a superblock to a reader that opens the container. -/
theorem superblock_of_build {s : Superblock}
    (is : s = d.closing ∨ s = d.olderSuperblockFor d.closing) {bytes : Bytes}
    (made : ObjectDraft.superblock d.order d.size s = .ok bytes) :
    Object.verifies d.order bytes = true ∧ Superblock.detectOrder bytes = .ok d.order ∧
      ∃ sum, Superblock.parse d.order bytes = .ok (s.stored sum) := by
  obtain ⟨roomy, -, addressable⟩ := size_bounds legal
  obtain ⟨code, block_size, slots, -⟩ := superblock_fits is
  exact (ObjectDraft.superblock_reads roomy addressable code (block_size ▸ legal) slots made).2

include makes legal found in
theorem yields_openAt {s : Superblock} (is : s = d.closing ∨ s = d.olderSuperblockFor d.closing)
    {address : BlockAddress} {bytes : Bytes}
    (made : ObjectDraft.superblock d.order d.size s = .ok bytes)
    (stored : source.readBlock address = .ok bytes) : ∃ c, OpenedBy d p source s bytes c ∧
    Yields (Memory.Sound contents size d.order)
      (Container.openAt source.remembered address .standard) (.ok c) := by
  obtain ⟨verified, detected, sum, parsed⟩ := superblock_of_build legal is made
  obtain ⟨-, block_size, -, ring, -, map_at⟩ := superblock_fits is
  have ordered : Container.orderOf .standard bytes address = .ok d.order := by
    change decodedAt address (Superblock.detectOrder bytes) = _
    rw [detected]
    rfl
  have same_size : ¬(s.stored sum).blockSize ≠ source.remembered.blockSize := by
    have opened_size : source.remembered.blockSize = size.bytes :=
      (BlockSource.ofBytes_eq_ok found.opened).2.1
    rw [opened_size, found.size_eq]
    exact fun other => other block_size
  have some_blocks : s.descBlocks ≠ 0 := by
    rw [ring]
    decide
  have mapped : ¬(s.stored sum).objectMap = 0 := by
    change ¬s.objectMap = 0
    rw [map_at]
    decide
  have one_run : (s.stored sum).isDescContiguous = true := by
    change s.isDescContiguous = true
    exact contiguous_ring is
  have chain_eq : MapChain.ofSuperblock (s.stored sum) d.order none = .ok (d.chainOf s) :=
    MapChain.ofSuperblock_eq one_run some_blocks d.order none
  have reads : Resolver.Reads source d.order
      ((Resolver.ofSource source.remembered d.order .standard).withCheckpoint (d.chainOf s)) :=
    ⟨rfl, rfl⟩
  obtain ⟨descriptor, tree_oid, described, binds⟩ := yields_bindObjectMap makes legal found reads
  have bound : Bound d p source (Resolver.withObjectMap
      ((Resolver.ofSource source.remembered d.order .standard).withCheckpoint (d.chainOf s))
      ⟨mapAddress, d.order, descriptor, Tree.standardDepth⟩) :=
    ⟨⟨rfl, rfl⟩, descriptor, Tree.standardDepth, rfl, tree_oid, UInt16.le_refl _, described⟩
  refine ⟨⟨address, s.stored sum, _⟩, ⟨bound, parsed, ⟨sum, rfl⟩, rfl⟩, ?_⟩
  refine (yields_block stored).bind ((yields_ofExcept ordered).bind ?_)
  refine (yields_verify verified _ _).bind ((yields_decodedAt _ parsed).bind ?_)
  refine yields_checked same_size ((yields_ofExcept chain_eq).bind ?_)
  dsimp only
  rw [if_neg mapped, show (s.stored sum).objectMap = mapAddress from map_at]
  exact binds.bind (yields_pure _)

include makes legal found in
theorem yields_open : ∃ c : Container, Bound d p source c.resolver ∧
    Yields (Memory.Sound contents size d.order) (Container.openAt source.remembered 0 .standard)
      (.ok c) := by
  obtain ⟨s, is, made⟩ := makes.first_is
  obtain ⟨c, opened, opens⟩ := yields_openAt makes legal found is made found.first
  exact ⟨c, opened.bound, opens⟩

include makes legal found in
theorem answers_of_bound (plain : ∀ plan ∈ d.objects, TypeWord.flags plan.objectType = 0)
    (distinct : (d.versions.map Prod.fst).Nodup) (bound : Bound d p source r) {memory : Memory}
    (sound : memory.Sound contents size d.order) : d.Answers r memory := by
  constructor
  · intro oid xid entry free newest
    exact (yields_lookup_newest makes legal found distinct bound free newest memory sound).2
  · intro oid xid free
    constructor
    · rintro ⟨text, failed⟩ ⟨entry, newest⟩
      have looked := yields_lookup_newest makes legal found distinct bound free newest memory sound
      rw [looked.2] at failed
      cases failed
    · intro none_there
      rcases yields_lookup makes legal found bound free xid with
        ⟨entry, newest, -⟩ | ⟨-, text, yields⟩
      · exact absurd ⟨entry, newest⟩ none_there
      · exact ⟨text, (yields memory sound).2⟩
  · intro oid xid i h free newest kept readable headed
    have type_plain := plain _ (List.getElem_mem h)
    obtain ⟨o, delivered, yields⟩ :=
      yields_object makes legal found distinct bound free h newest type_plain kept readable headed
    exact ⟨o, (yields memory sound).2, delivered⟩
  · intro oid xid entry free newest deleted
    obtain ⟨text, yields⟩ := yields_deleted makes legal found distinct bound free newest deleted
    exact ⟨text, (yields memory sound).2⟩
  · intro oid xid entry free newest kept unreadable
    obtain ⟨text, yields⟩ :=
      yields_unsupported makes legal found distinct bound free newest kept unreadable
    exact ⟨text, (yields memory sound).2⟩

end Opened

/-- A container that could be built can be opened, and answers then and ever after with the
versions that it was built from. -/
theorem build_open_answers (plain : ∀ plan ∈ d.objects, TypeWord.flags plan.objectType = 0)
    (distinct : (d.versions.map Prod.fst).Nodup) (run : d.build = .ok built)
    (shown : built.image.toSource = .ok source) : ∃ c later,
      (Container.openAt source.remembered 0 .standard).perform (.fresh .standard) = (.ok c, later) ∧
      c.resolver.Reads source d.order ∧ Reachable source d.order later ∧
      ∀ memory, Reachable source d.order memory → d.Answers c.resolver memory := by
  obtain ⟨p, contents, size, makes, legal, found⟩ := found_of_build run shown
  obtain ⟨c, bound, opens⟩ := yields_open makes legal found
  have opened := (opens _ (sound_fresh .standard)).2
  refine ⟨c, _, Prod.ext opened rfl, bound.reads, .openAt 0 .standard (.fresh .standard), ?_⟩
  intro memory reached
  exact answers_of_bound makes legal found plain distinct bound (reached.sound found.opened)

/-- A draft within the limits is built and opened. -/
theorem Modest.opens (modest : d.Modest) : ∃ p built contents size source c later,
    d.build = .ok built ∧ built.image.toSource = .ok source ∧ d.Makes p built ∧
      Found d p contents size source ∧ Bound d p source c.resolver ∧
      (Container.openAt source.remembered 0 .standard).perform (.fresh .standard)
        = (.ok c, later) ∧ Reachable source d.order later := by
  obtain ⟨built, source, run, shown⟩ := modest.builds
  obtain ⟨p, contents, size, makes, legal, found⟩ := found_of_build run shown
  obtain ⟨c, bound, opens⟩ := yields_open makes legal found
  have opened := (opens _ (sound_fresh .standard)).2
  exact ⟨p, built, contents, size, source, c, _, run, shown, makes, found, bound,
    Prod.ext opened rfl, .openAt 0 .standard (.fresh .standard)⟩

/-- A container with a version of an object, and a later one that says that it was deleted. -/
def withdrawn : ContainerDraft :=
  ((blank .big).addObject ⟨1024, 5, TypeWord.tree, 0⟩).addMapping ⟨1024, 8⟩ ⟨1, 4096, 0⟩

theorem withdrawn_modest : withdrawn.Modest := by
  constructor <;> decide

theorem withdrawn_early : withdrawn.Newest 1024 7 (withdrawn.objectVersion 0 (by decide)) := by
  constructor <;> decide

theorem withdrawn_late : withdrawn.Newest 1024 9 (⟨1024, 8⟩, ⟨1, 4096, 0⟩) := by
  constructor <;> decide

theorem build_open_answers_withdrawn : ∃ built source c later,
    withdrawn.build = .ok built ∧ built.image.toSource = .ok source ∧
      (Container.openAt source.remembered 0 .standard).perform (.fresh .standard)
        = (.ok c, later) ∧
      (∃ o, ((c.resolver.resolve (.virtual 1024 7)).perform later).1 = .ok o ∧
        withdrawn.Delivered 0 (by decide) (.virtual 1024 7) o) ∧
      ∃ text, ((c.resolver.resolve (.virtual 1024 9)).perform later).1
        = .error (.keyNotFound text) := by
  obtain ⟨built, source, run, shown⟩ := withdrawn_modest.builds
  obtain ⟨c, later, opened, -, reached, answers⟩ :=
    build_open_answers (by decide) (by decide) run shown
  have heard := answers later reached
  refine ⟨built, source, c, later, run, shown, opened, ?_, ?_⟩
  · exact heard.delivers 1024 7 0 (by decide) (by decide) withdrawn_early
      (by decide) (by decide) (by decide)
  · exact heard.withholds 1024 9 _ (by decide) withdrawn_late (by decide)

end ContainerDraft

end ObjectStore
