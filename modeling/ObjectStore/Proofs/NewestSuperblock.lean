import ObjectStore.Proofs.LatestCheckpoint
import ObjectStore.Proofs.Opening

/-
The latest checkpoint of any container: the newest superblock that stands in its ring, by which
the container can be opened again as far as that superblock goes.
-/
namespace ObjectStore.Container

open Session

variable {image : Bytes} {size : BlockSize} {source : BlockSource (Except StoreError)}
  {address : BlockAddress} {options : ResolverOptions} {c : Container} {before after : Memory}

/-- The tests of the scan are those of opening: with the options by which its container was
opened, a superblock that stands passes all of them. -/
theorem Stands.reopens (opened : BlockSource.ofBytes image size = .ok source)
    (from_block : OpenedFrom source address options c) {candidate : Candidate}
    (stands : c.Stands source candidate) (memory : Memory) :
    BindsOrFails source candidate.address options c.order candidate.superblock
      (memory.note (.block candidate.address))
      ((openAt source.remembered candidate.address options).perform memory).1 := by
  obtain ⟨⟨block, stored, verified, parsed⟩, same_size⟩ := stands
  have word : size.toNat < 4294967296 := UInt32.toNat_lt size.bytes
  have limit : Bytes.addressLimit = 18446744073709551616 := rfl
  have length_eq := (BlockSource.readBlock_holds opened stored).length_eq
  have ordered : orderOf options block candidate.address = .ok c.order := by
    obtain ⟨_, -, own, -, -⟩ := from_block.held
    unfold orderOf at own ⊢
    cases given : options.order with
    | some order =>
      rw [given] at own
      exact own
    | none =>
      dsimp only
      rw [detectOrder_of_parse (by omega) parsed]
      rfl
  rw [perform_openAt stored ordered verified parsed (same_size.trans from_block.size_eq)]
  exact bindSuperblock_ends c.order candidate.superblock

/-- The latest checkpoint of a container whose ring can be read is the newest superblock that
stands there, in the lowest slot of equals; and that superblock is bound when the container is
opened by it, unless its map chain or its object map fails. -/
theorem latestCheckpoint_newest (opened : BlockSource.ofBytes image size = .ok source)
    (run : (openAt source.remembered address options).perform before = (.ok c, after))
    (readable : ∀ slot < c.superblock.descBlocks.toNat, ∀ block,
      c.superblock.descBlock slot.toUInt32 = some block → ∃ b, source.readBlock block = .ok b)
    (memory : Memory) :
    ((∀ slot candidate, ¬c.OnRing source slot candidate) →
      (c.latestCheckpoint.perform memory).1 = .error (.corrupt c.superblock.descBase
        "no valid superblock in the checkpoint descriptor area")) ∧
    (∀ slot candidate, c.OnRing source slot candidate → ∃ slot best,
      (c.latestCheckpoint.perform memory).1 = .ok best ∧ c.OnRing source slot best ∧
      ∀ slot' other, c.OnRing source slot' other →
        other.xid ≤ best.xid ∧ (slot' < slot → other.xid < best.xid)) ∧
    ∀ best, (c.latestCheckpoint.perform memory).1 = .ok best → ∀ memory',
      BindsOrFails source best.address options c.order best.superblock
        (memory'.note (.block best.address))
        ((openAt source.remembered best.address options).perform memory').1 := by
  have from_block := opened_of_openAt run
  have roomy : ObjectHeader.size ≤ size.toNat := by
    obtain ⟨_, stored, -, -, parsed⟩ := from_block.held
    have width := Superblock.size_codec
    have header_size : ObjectHeader.size = 32 := rfl
    have length_eq := (BlockSource.readBlock_holds opened stored).length_eq
    have inside := (superblock_of_parse parsed).roomy
    omega
  obtain ⟨last, is_best, yields⟩ := yields_latestCheckpoint fun slot within =>
    offers_of_readable (I := fun _ => True) (fun _ _ _ => trivial) opened from_block.source_eq roomy
      within (readable slot within)
  have found := (yields memory trivial).2
  rw [found]
  cases last with
  | none =>
    refine ⟨fun _ => rfl, fun slot candidate on_ring => ?_, fun best same => nomatch same⟩
    exact absurd on_ring (is_best slot on_ring.within candidate)
  | some best =>
    obtain ⟨slot, -, on_ring, greatest⟩ := is_best
    refine ⟨fun nothing => absurd on_ring (nothing slot best), fun _ _ _ => ?_, ?_⟩
    · exact ⟨slot, best, rfl, on_ring, fun slot' other on_ring' =>
        greatest slot' on_ring'.within other on_ring'⟩
    · intro _ same memory'
      cases same
      exact on_ring.stands.reopens opened from_block memory'

/-- A container whose first block is left from the older of its two checkpoints. -/
theorem latestCheckpoint_newest_wrapped : ∃ (source : BlockSource (Except StoreError))
    (c : Container) (before after : Memory) (best : Candidate),
      (openAt source.remembered 0 .standard).perform before = (.ok c, after) ∧
      (c.latestCheckpoint.perform after).1 = .ok best ∧ ContainerDraft.wrapped.xid ≤ best.xid ∧
      BindsOrFails source best.address .standard c.order best.superblock
        (after.note (.block best.address))
        ((openAt source.remembered best.address .standard).perform after).1 := by
  obtain ⟨built, source, run, shown⟩ := ContainerDraft.wrapped_modest.builds
  obtain ⟨p, contents, size, makes, legal, found⟩ := ContainerDraft.found_of_build run shown
  obtain ⟨s, q, closes, first_eq⟩ := ContainerDraft.closes_first ContainerDraft.wrapped p
  obtain ⟨c, opened, opens⟩ := ContainerDraft.yields_openAt makes legal found closes.is
    (closes.made makes.toPrepares) (found.first.trans (congrArg Except.ok first_eq))
  have ran := (opens (.fresh .standard) (sound_fresh .standard)).2
  obtain ⟨slot, newest, -, xid_eq, on_ring⟩ :=
    ContainerDraft.newest_on_ring makes legal found closes opened
  obtain ⟨-, finds, reopens⟩ := latestCheckpoint_newest found.opened (Prod.ext ran rfl)
    (fun slot within block placed =>
      (ContainerDraft.slots_readable makes legal found closes opened within placed).2.2)
    ((openAt source.remembered 0 .standard).perform (.fresh .standard)).2
  obtain ⟨slot', best, latest, -, greatest⟩ := finds slot _ on_ring
  refine ⟨source, c, _, _, best, Prod.ext ran rfl, latest, ?_, reopens best latest _⟩
  rw [← xid_eq]
  exact (greatest slot _ on_ring).1

end ObjectStore.Container
