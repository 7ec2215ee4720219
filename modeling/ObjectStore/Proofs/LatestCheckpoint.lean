import ObjectStore.Proofs.BuiltCheckpoint
import ObjectStore.Proofs.CheckpointScan

/-
The latest checkpoint of a built container. From whichever superblock the look at the ring
starts, it finds the newer one, and opened by it the container has the same ephemeral objects.
-/
namespace ObjectStore

open Session

namespace ContainerDraft

variable {d : ContainerDraft} {p : ContainerParts} {built : ContainerImage} {contents : Bytes}
  {size : BlockSize} {source : BlockSource (Except StoreError)} {c : Container}

/-- The slots of the ring are the blocks 1 to 16. -/
theorem descBlock_eq {s : Superblock} (base : s.descBase = descBase)
    (blocks : s.descBlocks = descBlocks) {j : Nat} (h : j < 16) :
    ∃ address, s.descBlock j.toUInt32 = some address ∧ address.toNat = 1 + j := by
  have width : descBlocks.toNat = 16 := rfl
  have number : (1 + j).toUInt64.toNat = 1 + j :=
    UInt64.toNat_ofNat_of_lt' (by change _ < 2 ^ 64; omega)
  refine ⟨(1 + j).toUInt64, ?_, number⟩
  rw [Superblock.descBlock_eq_some_iff (by rw [blocks]; decide), number, base, blocks,
    toNat_slot (by omega), width, Nat.mod_eq_of_lt h]
  rfl

theorem zeros_header (e : ByteOrder) {n : Nat} (roomy : ObjectHeader.size ≤ n)
    (addressable : n < Bytes.addressLimit) :
    ObjectHeader.parse e (Bytes.zeros n) = .ok ⟨0, 0, 0, 0, 0⟩ := by
  have zeros_size := Bytes.size_zeros n
  have header_size : ObjectHeader.size = 32 := rfl
  have front : (Bytes.zeros n).extract 0 ObjectHeader.size = Bytes.zeros 32 := by
    apply Bytes.ext_getPadded
    · rw [Bytes.size_extract_of_le (by omega), Bytes.size_zeros, header_size]
    · intro i lt
      rw [Bytes.size_extract_of_le (by omega)] at lt
      rw [Bytes.getPadded_extract (by omega), Bytes.getPadded_zeros, Bytes.getPadded_zeros]
  rw [← parse_front (by omega) (by omega), front]
  cases e with
  | little => rfl
  | big => rfl

section Opened

variable (makes : d.Makes p built) (legal : d.blockSize ∈ BlockSize.legal)
  (found : Found d p contents size source)

section Slots

variable {s : Superblock} {q : Pending} (closes : Closes d p s q)
  (opened : OpenedBy d p source s q.2 c)

include makes legal found closes opened in
/-- The superblocks of the container stand where they lie. -/
theorem superblock_stands {s' : Superblock} {q' : Pending} (closes' : Closes d p s' q') :
    ∃ sum, Superblock.parse d.order q'.2 = .ok (s'.stored sum) ∧
      c.Stands source ⟨q'.1, s'.stored sum⟩ := by
  obtain ⟨verified, -, sum, parsed⟩ :=
    superblock_of_build legal closes'.is (closes'.made makes.toPrepares)
  have same_size : (s'.stored sum).blockSize = c.superblock.blockSize := by
    obtain ⟨sum', superblock_eq⟩ := opened.superblock_eq
    rw [superblock_eq]
    exact (superblock_fits closes'.is).2.1.trans (superblock_fits closes.is).2.1.symm
  refine ⟨sum, parsed, ⟨q'.2, found.holds q' closes'.mem, ?_, ?_⟩, same_size⟩
  · rw [Container.order, opened.bound.reads.order_eq]
    exact verified
  · rw [Container.order, opened.bound.reads.order_eq]
    exact parsed

include legal found opened in
theorem mapBlock_stands_not {candidate : Candidate} (stands : c.Stands source candidate)
    {block : Bytes} (mem : (candidate.address, block) ∈ d.pendingOf p) {xid : TransactionId}
    {index : Nat} {address : BlockAddress} {last : Bool} {mappings : List EphemeralMapping}
    (made : ObjectDraft.mapBlock d.order d.size xid index address last mappings = .ok block) :
    False := by
  obtain ⟨roomy, -, addressable⟩ := size_bounds legal
  have front_size : MapBlock.frontSize = 40 := rfl
  obtain ⟨-, -, block', parsed, -, -, -, -, header⟩ :=
    ObjectDraft.mapBlock_reads addressable (by omega) made
  rw [← opened.bound.reads.order_eq] at header
  have code := stands.code (found.holds _ mem) header
  rw [MapBlock.typeCode_of_parse parsed] at code
  cases code

include makes legal found in
/-- Every block of the ring can be read. -/
theorem ring_readable {address : BlockAddress} (in_ring : address.toNat ≤ 16) :
    ∃ b, source.readBlock address = .ok b ∧
      (address ∉ (d.pendingOf p).map Prod.fst → b = Bytes.zeros d.size) := by
  have map_at := toNat_mapAddress
  -- The image goes on behind the ring, since the object map is there.
  have beyond := (image_of_build makes legal).2 (mapAddress, p.descriptor)
    (mem_pendingOf.mpr (by simp))
  dsimp only at beyond
  by_cases free : address ∉ (d.pendingOf p).map Prod.fst
  · exact ⟨_, found.blanks address free (by omega), fun _ => rfl⟩
  · obtain ⟨q, mem, same⟩ := List.mem_map.mp (Decidable.not_not.mp free)
    exact ⟨q.2, same ▸ found.holds q mem, fun other => absurd other free⟩

include makes legal found in
theorem blank_stands_not {candidate : Candidate} (stands : c.Stands source candidate)
    (in_ring : candidate.address.toNat ≤ 16)
    (free : candidate.address ∉ (d.pendingOf p).map Prod.fst) : False := by
  obtain ⟨roomy, -, addressable⟩ := size_bounds legal
  have header_size : ObjectHeader.size = 32 := rfl
  obtain ⟨b, stored, blank⟩ := ring_readable makes legal found in_ring
  rw [blank free] at stored
  have code := stands.code stored (zeros_header c.order (by omega) addressable)
  cases code

include makes legal found closes opened in
/-- What stands in the ring is not newer than the newer checkpoint. -/
theorem stands_in_ring {newest : Superblock}
    (parsed : Superblock.parse d.order p.superblock = .ok newest)
    (xid_eq : newest.header.xid = d.xid)
    {candidate : Candidate} (stands : c.Stands source candidate)
    (low : 1 ≤ candidate.address.toNat) (high : candidate.address.toNat ≤ 16) :
    candidate = ⟨p.superblockAt, newest⟩ ∨ candidate.xid < newest.header.xid := by
  by_cases free : candidate.address ∉ (d.pendingOf p).map Prod.fst
  · exact (blank_stands_not makes legal found stands high free).elim
  · obtain ⟨q', mem, same⟩ := List.mem_map.mp (Decidable.not_not.mp free)
    have at_address : (candidate.address, q'.2) ∈ d.pendingOf p := same ▸ mem
    rcases ring_part makes legal mem (same ▸ low) (same ▸ high) with in_chain | rfl | in_older
    · obtain ⟨-, _, _, _, _, made⟩ := chain_placed makes.toPrepares in_chain
      exact (mapBlock_stands_not legal found opened stands at_address made).elim
    · obtain ⟨sum, parsed', stands'⟩ :=
        superblock_stands makes legal found closes opened .newer
      rw [parsed] at parsed'
      cases parsed'
      exact .inl (stands.unique stands' same.symm)
    · obtain ⟨blocks, older, rfl | rfl⟩ := mem_olderBlocks.mp in_older
      · obtain ⟨-, -, made, -⟩ := buildOlder_eq_ok (makes.older_built older)
        exact (mapBlock_stands_not legal found opened stands at_address made).elim
      · obtain ⟨sum, -, stands'⟩ :=
          superblock_stands makes legal found closes opened (.older older)
        rw [stands.unique stands' same.symm, xid_eq]
        exact .inr makes.older_xid_lt

end Slots

include makes legal found in
/-- Every slot of the ring can be read. -/
theorem slots_readable {s : Superblock} {q : Pending} (closes : Closes d p s q)
    (opened : OpenedBy d p source s q.2 c) {slot : Nat}
    (within : slot < c.superblock.descBlocks.toNat) {address : BlockAddress}
    (placed : c.superblock.descBlock slot.toUInt32 = some address) :
    1 ≤ address.toNat ∧ address.toNat ≤ 16 ∧ ∃ b, source.readBlock address = .ok b := by
  obtain ⟨-, -, -, ring, base, -⟩ := superblock_fits closes.is
  obtain ⟨sum, superblock_eq⟩ := opened.superblock_eq
  have width : descBlocks.toNat = 16 := rfl
  have inside : slot < 16 := by
    rw [superblock_eq] at within
    change slot < s.descBlocks.toNat at within
    rw [ring] at within
    omega
  obtain ⟨_, here, number⟩ := descBlock_eq (s := s.stored sum) base ring inside
  rw [superblock_eq, here] at placed
  cases placed
  have in_ring : address.toNat ≤ 16 := by omega
  obtain ⟨b, stored, -⟩ := ring_readable makes legal found in_ring
  exact ⟨by omega, in_ring, b, stored⟩

include makes legal found in
/-- The newer superblock is in the ring. -/
theorem newest_on_ring {s : Superblock} {q : Pending} (closes : Closes d p s q)
    (opened : OpenedBy d p source s q.2 c) : ∃ slot newest,
    Superblock.parse d.order p.superblock = .ok newest ∧ newest.header.xid = d.xid ∧
      c.OnRing source slot ⟨p.superblockAt, newest⟩ := by
  obtain ⟨sum, parsed, stands⟩ := superblock_stands makes legal found closes opened .newer
  obtain ⟨-, -, -, ring, base, -⟩ := superblock_fits closes.is
  obtain ⟨sum', superblock_eq⟩ := opened.superblock_eq
  have inside : (d.descStart.toNat + d.mapGroups.length) % 16 < 16 := Nat.mod_lt _ (by decide)
  obtain ⟨address, here, number⟩ := descBlock_eq (s := s.stored sum') base ring inside
  have same : address = p.superblockAt := by
    apply UInt64.toNat_inj.mp
    rw [number, (superblockAt_place makes.toPrepares).2, ringNumber]
  refine ⟨(d.descStart.toNat + d.mapGroups.length) % 16, _, parsed, rfl, ?_, ?_, stands⟩
  · rw [superblock_eq]
    change _ < s.descBlocks.toNat
    rw [ring]
    exact inside
  · rw [superblock_eq, here, same]

include makes legal found in
/-- The superblock of the newer checkpoint is found, from either superblock of the container. -/
theorem yields_latest {s : Superblock} {q : Pending} (closes : Closes d p s q)
    (opened : OpenedBy d p source s q.2 c) : ∃ newest,
    Superblock.parse d.order p.superblock = .ok newest ∧ newest.header.xid = d.xid ∧
      Yields (Memory.Sound contents size d.order) c.latestCheckpoint
        (.ok ⟨p.superblockAt, newest⟩) := by
  obtain ⟨slot, newest, parsed, xid_eq, goal⟩ := newest_on_ring makes legal found closes opened
  obtain ⟨last, is_best, yields⟩ := Container.yields_latestCheckpoint fun slot within =>
    Container.offers_of_readable (I := Memory.Sound contents size d.order)
      (fun _ _ sound => sound) found.opened opened.bound.reads.source_eq (found.header_fits legal)
      within fun _ placed => (slots_readable makes legal found closes opened within placed).2.2
  refine ⟨newest, parsed, xid_eq, ?_⟩
  cases last with
  | none => exact absurd goal (is_best _ goal.within _)
  | some best =>
    obtain ⟨slot', within, on_ring, greatest⟩ := is_best
    obtain ⟨low, high, -⟩ :=
      slots_readable makes legal found closes opened within on_ring.address_eq
    rcases stands_in_ring makes legal found closes opened parsed xid_eq on_ring.stands low high with
      same | older
    · rw [← same]
      exact yields
    · exact absurd older (UInt64.not_lt.mpr (greatest _ goal.within _ goal).1)

structure Checkpointed (d : ContainerDraft) (built : ContainerImage) (c : Container)
    (memory : Memory) : Prop where
  lists : (c.checkpointMappings.perform memory).1 = .ok d.ephemeralMappings
  delivers : ∀ i (h : i < d.ephemeral.length), ∃ o,
    ((c.resolver.resolve (.ephemeral d.ephemeral[i].1)).perform memory).1 = .ok o ∧
      DeliveredEphemeral d built i h o
  misses : ∀ oid, reservedIds ≤ oid → oid ∉ d.ephemeral.map Prod.fst →
    ∃ text, ((c.resolver.resolve (.ephemeral oid)).perform memory).1 = .error (.keyNotFound text)
  latest : ∃ candidate, (c.latestCheckpoint.perform memory).1 = .ok candidate ∧
    candidate.address = built.layout.superblock ∧ candidate.xid = d.xid

include makes legal found in
theorem checkpointed_of_closes {s : Superblock} {q : Pending} (closes : Closes d p s q)
    (opened : OpenedBy d p source s q.2 c) (distinct : (d.ephemeral.map Prod.fst).Nodup)
    (free : ∀ e ∈ d.ephemeral, reservedIds ≤ e.1)
    (plain : ∀ e ∈ d.ephemeral, TypeWord.flags e.2 = 0) {memory : Memory}
    (sound : memory.Sound contents size d.order) : d.Checkpointed built c memory := by
  constructor
  · exact (yields_checkpointMappings makes legal found closes opened memory sound).2
  · intro i h
    have mem := List.getElem_mem h
    obtain ⟨o, delivered, yields⟩ := yields_ephemeral makes legal found closes opened distinct h
      (free _ mem) (plain _ mem)
    exact ⟨o, (yields memory sound).2, delivered⟩
  · intro oid unreserved missing
    exact ⟨_, (yields_missing makes legal found closes opened unreserved missing memory sound).2⟩
  · obtain ⟨newest, -, xid_eq, yields⟩ := yields_latest makes legal found closes opened
    refine ⟨_, (yields memory sound).2, ?_, xid_eq⟩
    rw [← makes.layout_eq]
    rfl

end Opened

/-- A container that could be built has each of its objects on a block of its own. Opened by its
first block, current or stale, or by the superblock of its latest checkpoint, it has the ephemeral
objects that it was built with and no others. -/
theorem build_open_checkpointed (distinct : (d.ephemeral.map Prod.fst).Nodup)
    (free : ∀ e ∈ d.ephemeral, reservedIds ≤ e.1)
    (plain : ∀ e ∈ d.ephemeral, TypeWord.flags e.2 = 0) (run : d.build = .ok built)
    (shown : built.image.toSource = .ok source) :
    (built.image.placed.map Prod.fst).Nodup ∧ ∃ c later,
      (Container.openAt source.remembered 0 .standard).perform (.fresh .standard) = (.ok c, later) ∧
      Reachable source d.order later ∧
      (∀ memory, Reachable source d.order memory → d.Checkpointed built c memory) ∧
      ∀ memory, Reachable source d.order memory → ∃ c' later',
        (Container.openAt source.remembered built.layout.superblock .standard).perform memory
          = (.ok c', later') ∧
        c'.xid = d.xid ∧ Reachable source d.order later' ∧
        ∀ memory', Reachable source d.order memory' → d.Checkpointed built c' memory' := by
  obtain ⟨p, contents, size, makes, legal, found⟩ := found_of_build run shown
  obtain ⟨s, q, closes, first_eq⟩ := closes_first d p
  obtain ⟨c, opened, opens⟩ := yields_openAt makes legal found closes.is
    (closes.made makes.toPrepares) (found.first.trans (congrArg Except.ok first_eq))
  refine ⟨placed_nodup makes legal, c, _, Prod.ext (opens _ (sound_fresh .standard)).2 rfl,
    .openAt 0 .standard (.fresh .standard), fun memory reached => ?_, fun memory reached => ?_⟩
  · exact checkpointed_of_closes makes legal found closes opened distinct free plain
      (reached.sound found.opened)
  · have newest : Closes d p d.closing (p.superblockAt, p.superblock) := .newer
    have address_eq : built.layout.superblock = p.superblockAt := by
      rw [← makes.layout_eq]
      rfl
    obtain ⟨c', opened', opens'⟩ := yields_openAt makes legal found newest.is
      (newest.made makes.toPrepares) (found.holds _ newest.mem)
    rw [address_eq]
    refine ⟨c', _, Prod.ext (opens' _ (reached.sound found.opened)).2 rfl, ?_,
      .openAt _ .standard reached, fun memory' reached' => ?_⟩
    · obtain ⟨sum, superblock_eq⟩ := opened'.superblock_eq
      rw [Container.xid, superblock_eq]
      rfl
    · exact checkpointed_of_closes makes legal found newest opened' distinct free plain
        (reached'.sound found.opened)

/-- A container whose checkpoint starts in the last slot of the ring, and whose first block is
left from the older one. -/
def wrapped : ContainerDraft :=
  ((({ blank .big with older := true, stale := true, mappingsPerBlock := 1 }).startingAt 15
    ).addEphemeral 1024 TypeWord.spaceManager).addEphemeral 1030 TypeWord.tree

theorem wrapped_modest : wrapped.Modest := by
  have few : wrapped.mapGroups.length ≤ 2 := chunks_length_le 1 wrapped.ephemeralMappings
  refine ⟨by decide, by decide, by decide, by decide, ?_, by decide, by decide, by decide,
    by decide⟩
  change wrapped.mapGroups.length + 1 + 2 ≤ 16
  omega

theorem build_open_checkpointed_wrapped : ∃ built source c later,
    wrapped.build = .ok built ∧ built.image.toSource = .ok source ∧
      (built.image.placed.map Prod.fst).Nodup ∧
      (Container.openAt source.remembered 0 .standard).perform (.fresh .standard)
        = (.ok c, later) ∧
      (∃ o, ((c.resolver.resolve (.ephemeral 1030)).perform later).1 = .ok o ∧
        DeliveredEphemeral wrapped built 1 (by decide) o) ∧
      (∃ text, ((c.resolver.resolve (.ephemeral 1025)).perform later).1
        = .error (.keyNotFound text)) ∧
      ∃ candidate, (c.latestCheckpoint.perform later).1 = .ok candidate ∧
        candidate.address = built.layout.superblock ∧ candidate.xid = 10 := by
  obtain ⟨built, source, run, shown⟩ := wrapped_modest.builds
  have free : ∀ e ∈ wrapped.ephemeral, reservedIds ≤ e.1 :=
    List.forall_mem_cons.mpr ⟨by decide, List.forall_mem_singleton.mpr (by decide)⟩
  have plain : ∀ e ∈ wrapped.ephemeral, TypeWord.flags e.2 = 0 :=
    List.forall_mem_cons.mpr ⟨by decide, List.forall_mem_singleton.mpr (by decide)⟩
  obtain ⟨apart, c, later, opened, reached, hears, -⟩ :=
    build_open_checkpointed (by decide) free plain run shown
  have heard := hears later reached
  exact ⟨built, source, c, later, run, shown, apart, opened, heard.delivers 1 (by decide),
    heard.misses 1025 (by decide) (by decide), heard.latest⟩

end ContainerDraft

end ObjectStore
