import ObjectStore.Proofs.BuiltMapBlocks
import ObjectStore.Proofs.ChainScans
import ObjectStore.Proofs.RoundTrip

/-
The checkpoints of a built container. Whichever of its superblocks a reader has opened it by, the
map blocks in front of that superblock list the ephemeral objects in their order, and each is
read from the block on which it was put.
-/
namespace ObjectStore

open Session

/-- The first of several things with different names is the only one with its name. -/
theorem firstMapping_of_nodup {mappings : List EphemeralMapping}
    (distinct : (mappings.map EphemeralMapping.oid).Nodup) {i : Nat} (h : i < mappings.length)
    (otherwise : StoreError) :
    firstMapping mappings mappings[i].oid otherwise = .ok mappings[i] := by
  have found : mappings.find? (·.oid == mappings[i].oid) = some mappings[i] := by
    refine List.find?_eq_some_iff_getElem.mpr ⟨beq_self_eq_true _, i, h, rfl, fun j before => ?_⟩
    have apart :=
      List.pairwise_iff_getElem.mp (List.pairwise_map.mp distinct) j i (by omega) h before
    simpa using apart
  rw [firstMapping, found]

namespace MapChain

variable {c : MapChain} {source : BlockSource (Except StoreError)}

/-- Groups of mappings in the slots from `i` on, the last of them flagged. -/
theorem scan_of_groups : ∀ (groups : List (List EphemeralMapping)) (i left : Nat),
    groups ≠ [] → groups.length ≤ left →
    (∀ j (h : j < groups.length), ∃ address bytes block,
      c.Intact source (i + j) address bytes block ∧ block.mappings = groups[j] ∧
        block.isLast = (j + 1 == groups.length)) →
    ∃ blocks, Scan c source i left blocks none ∧ listed blocks = groups.flatten := by
  intro groups
  induction groups with
  | nil => exact fun _ _ some_group _ _ => absurd rfl some_group
  | cons group rest ih =>
    intro i left _ room each
    obtain ⟨left, rfl⟩ : ∃ n, left = n + 1 := ⟨left - 1, by simp at room; omega⟩
    obtain ⟨address, bytes, block, intact, mappings_eq, is_last⟩ := each 0 (Nat.succ_pos _)
    have read := readBlock_eq_ok.mpr ⟨address, bytes, intact⟩
    cases rest with
    | nil =>
      refine ⟨[block], .last read is_last, ?_⟩
      rw [listed, List.flatMap_singleton, mappings_eq]
      simp
    | cons next more =>
      have not_last : block.isLast = false := by
        rw [is_last]
        simp
      obtain ⟨blocks, scan, all⟩ := ih (i + 1) left (List.cons_ne_nil _ _)
        (Nat.le_of_succ_le_succ room) fun j h => by
          obtain ⟨address', bytes', block', intact', mappings_eq', is_last'⟩ :=
            each (j + 1) (Nat.succ_lt_succ h)
          rw [← Nat.add_assoc, Nat.add_right_comm] at intact'
          refine ⟨address', bytes', block', intact', mappings_eq', is_last'.trans ?_⟩
          simp
      refine ⟨block :: blocks, .next read not_last scan, ?_⟩
      rw [listed] at all ⊢
      rw [List.flatMap_cons, all, mappings_eq]
      rfl

end MapChain

namespace ContainerDraft

variable {d : ContainerDraft} {p : ContainerParts} {built : ContainerImage} {contents : Bytes}
  {size : BlockSize} {source : BlockSource (Except StoreError)}

inductive Closes (d : ContainerDraft) (p : ContainerParts) : Superblock → Pending → Prop where
  | newer : Closes d p d.closing (p.superblockAt, p.superblock)
  | older {blocks : Pending × Pending} (some_older : p.older = some blocks) :
      Closes d p (d.olderSuperblockFor d.closing) blocks.2

section Closes

variable {s : Superblock} {q : Pending} (closes : Closes d p s q)

include closes

theorem Closes.is : s = d.closing ∨ s = d.olderSuperblockFor d.closing := by
  cases closes with
  | newer => exact .inl rfl
  | older some_older => exact .inr rfl

theorem Closes.made (ready : d.Prepares p) :
    ObjectDraft.superblock d.order d.size s = .ok q.2 := by
  cases closes with
  | newer => exact ready.superblock_eq
  | older some_older => exact (buildOlder_eq_ok (ready.older_built some_older)).2.2.2

theorem Closes.mem : q ∈ d.pendingOf p := by
  cases closes with
  | newer => exact mem_pendingOf.mpr (by simp)
  | older some_older => exact mem_pendingOf.mpr (by simp [olderBlocks, some_older])

end Closes

theorem closes_first (d : ContainerDraft) (p : ContainerParts) :
    ∃ s q, Closes d p s q ∧ d.firstOf p = q.2 := by
  cases older : p.older with
  | none => exact ⟨_, _, .newer, by rw [firstOf, older]⟩
  | some blocks =>
    cases stale : d.stale with
    | false => exact ⟨_, _, .newer, by simp [firstOf, older, stale]⟩
    | true => exact ⟨_, _, .older older, by simp [firstOf, older, stale]⟩

theorem blockAddress_chainOf {s : Superblock}
    (is : s = d.closing ∨ s = d.olderSuperblockFor d.closing) (i : UInt32) :
    (d.chainOf s).blockAddress i = s.checkpointBlock i := by
  have some_blocks : s.descBlocks ≠ 0 := by
    rw [(superblock_fits is).2.2.2.1]
    decide
  exact (if_neg some_blocks).symm

theorem mapGroups_flatten (d : ContainerDraft) :
    d.mapGroups ≠ [] ∧ d.mapGroups.flatten = d.ephemeralMappings := by
  unfold mapGroups
  dsimp only
  split
  · rename_i none_there
    rw [List.isEmpty_iff.mp none_there]
    exact ⟨by simp, rfl⟩
  · rename_i some_there
    rw [List.isEmpty_iff] at some_there
    exact ⟨chunks_ne_nil _ some_there, chunks_flatten _ _⟩

theorem length_ephemeralMappings (d : ContainerDraft) :
    d.ephemeralMappings.length = d.ephemeral.length := by
  rw [ephemeralMappings, List.length_map, List.length_zipIdx]

theorem getElem_ephemeralMappings {i : Nat} (h : i < d.ephemeral.length)
    (within : i < d.ephemeralMappings.length) :
    d.ephemeralMappings[i] = ObjectDraft.ephemeralMapping d.ephemeral[i].1 d.ephemeral[i].2
        d.blockSize (ephemeralAddress i) := by
  simp [ephemeralMappings]

section Made

variable (makes : d.Makes p built) (legal : d.blockSize ∈ BlockSize.legal)
  (found : Found d p contents size source)

include legal in
/-- A built map block is intact in the slot of the chain that it is read from. -/
theorem intact_mapBlock {s : Superblock} {i : Nat} {q : Pending} {xid : TransactionId} {index : Nat}
    {last : Bool} {mappings : List EphemeralMapping}
    (is : s = d.closing ∨ s = d.olderSuperblockFor d.closing)
    (placed : s.checkpointBlock i.toUInt32 = some q.1) (stored : source.readBlock q.1 = .ok q.2)
    (made : ObjectDraft.mapBlock d.order d.size xid index q.1 last mappings = .ok q.2) :
    ∃ block, (d.chainOf s).Intact source i q.1 q.2 block ∧ block.mappings = mappings ∧
      block.isLast = last := by
  obtain ⟨roomy, -, addressable⟩ := size_bounds legal
  have front_size : MapBlock.frontSize = 40 := rfl
  obtain ⟨-, verified, block, parsed, -, -, is_last, mappings_eq, -⟩ :=
    ObjectDraft.mapBlock_reads addressable (by omega) made
  exact ⟨block, ⟨(blockAddress_chainOf is _).trans placed, stored, verified, parsed⟩,
    mappings_eq, is_last⟩

theorem mapBlock_built (ready : d.Prepares p) {k : Nat} (h : k < d.mapGroups.length) :
    ∃ q, q ∈ p.mapAddresses.zip p.chain ∧ d.closing.checkpointBlock k.toUInt32 = some q.1 ∧
      ObjectDraft.mapBlock d.order d.size d.xid k q.1 (k + 1 == d.mapGroups.length)
        d.mapGroups[k] = .ok q.2 := by
  have addresses_length := length_mapAddresses ready
  have chain_length := length_chain ready
  have in_zip : k < (p.mapAddresses.zip p.chain).length := by
    rw [List.length_zip]
    omega
  obtain ⟨-, chain⟩ := checked_eq_ok.mp ready.chain_eq
  have made := (mapM_zipIdx_eq_ok chain).2 k (by simp [addresses_length, h]) (by omega)
  simp only [List.getElem_zip, Bool.true_and] at made
  refine ⟨(p.mapAddresses[k], p.chain[k]), ?_, (mapAddress_place ready (by omega)).1, made⟩
  rw [← List.getElem_zip]
  exact List.getElem_mem in_zip

include makes legal found in
/-- The map blocks of the newer checkpoint lie in the slots from its first on. -/
theorem scanned_newer : ∃ blocks, (d.chainOf d.closing).Scanned source blocks none ∧
    listed blocks = d.ephemeralMappings := by
  obtain ⟨some_group, flat⟩ := mapGroups_flatten d
  have few := few_groups makes.toPrepares
  have reach : d.mapGroups.length ≤ (d.chainOf d.closing).maxBlocks.toNat := by
    have width : descBlocks.toNat = 16 := rfl
    have one_more : d.closing.descLength.toNat = d.mapGroups.length + 1 := by
      change (d.mapGroups.length.toUInt32 + 1).toNat = _
      rw [UInt32.toNat_add, toNat_slot (by omega)]
      exact Nat.mod_eq_of_lt (by change _ + 1 < _; omega)
    change d.mapGroups.length ≤ (min d.closing.descLength d.closing.descBlocks).toNat
    rw [toNat_min, one_more, (closing_ring d).2, width]
    omega
  have each : ∀ k (h : k < d.mapGroups.length), ∃ address bytes block,
      (d.chainOf d.closing).Intact source (0 + k) address bytes block ∧
        block.mappings = d.mapGroups[k] ∧ block.isLast = (k + 1 == d.mapGroups.length) :=
    fun k h => by
      obtain ⟨q, mem, placed, made⟩ := mapBlock_built makes.toPrepares h
      obtain ⟨block, intact, mappings_eq, is_last⟩ := intact_mapBlock legal (.inl rfl) placed
        (found.holds q (mem_pendingOf.mpr (by simp [mem]))) made
      rw [Nat.zero_add]
      exact ⟨q.1, q.2, block, intact, mappings_eq, is_last⟩
  obtain ⟨blocks, scan, all⟩ := MapChain.scan_of_groups d.mapGroups 0 _ some_group reach each
  exact ⟨blocks, scan, all.trans flat⟩

include makes legal found in
theorem scanned_older {blocks : Pending × Pending} (some_older : p.older = some blocks) :
    ∃ read, (d.chainOf (d.olderSuperblockFor d.closing)).Scanned source read none ∧
      listed read = d.ephemeralMappings := by
  obtain ⟨-, -, made, -⟩ := buildOlder_eq_ok (makes.older_built some_older)
  have stored := found.holds blocks.1 (mem_pendingOf.mpr (by simp [olderBlocks, some_older]))
  obtain ⟨⟨placed, -⟩, -⟩ := older_places makes.toPrepares some_older
  obtain ⟨block, intact, mappings_eq, is_last⟩ :=
    intact_mapBlock (i := 0) legal (.inr rfl) placed stored made
  have read := MapChain.readBlock_eq_ok.mpr ⟨_, _, intact⟩
  refine ⟨[block], ?_, by rw [listed, List.flatMap_singleton, mappings_eq]⟩
  have two : (d.chainOf (d.olderSuperblockFor d.closing)).maxBlocks.toNat = 1 + 1 := by
    rw [chainOf]
    dsimp only
    rw [(superblock_fits (d := d) (.inr rfl)).2.2.2.1]
    rfl
  rw [MapChain.Scanned, two]
  exact .last read is_last

include makes legal found in
theorem scanned_of_closes {s : Superblock} {q : Pending} (closes : Closes d p s q) :
    ∃ blocks, (d.chainOf s).Scanned source blocks none ∧ listed blocks = d.ephemeralMappings := by
  cases closes with
  | newer => exact scanned_newer makes legal found
  | older some_older => exact scanned_older makes legal found some_older

theorem oids_ephemeralMappings (d : ContainerDraft) :
    d.ephemeralMappings.map EphemeralMapping.oid = d.ephemeral.map Prod.fst := by
  apply List.ext_getElem
  · rw [List.length_map, List.length_map, length_ephemeralMappings]
  · intro i left right
    rw [List.length_map] at right
    rw [List.getElem_map, List.getElem_map, getElem_ephemeralMappings right]
    rfl

include makes legal found in
theorem chain_resolves {s : Superblock} {q : Pending} (closes : Closes d p s q)
    (distinct : (d.ephemeral.map Prod.fst).Nodup) {i : Nat} (h : i < d.ephemeral.length) :
    (d.chainOf s).resolve source d.ephemeral[i].1 = .ok (ObjectDraft.ephemeralMapping
      d.ephemeral[i].1 d.ephemeral[i].2 d.blockSize (ephemeralAddress i)) := by
  obtain ⟨blocks, scanned, all⟩ := scanned_of_closes makes legal found closes
  have within : i < d.ephemeralMappings.length := by
    rw [length_ephemeralMappings]
    exact h
  have first := firstMapping_of_nodup (by rw [oids_ephemeralMappings]; exact distinct) within
    (MapChain.absent d.ephemeral[i].1)
  rw [getElem_ephemeralMappings h within] at first
  rw [scanned.resolve_eq, all]
  exact first

include makes legal found in
theorem chain_misses {s : Superblock} {q : Pending} (closes : Closes d p s q) {oid : ObjectId}
    (missing : oid ∉ d.ephemeral.map Prod.fst) :
    (d.chainOf s).resolve source oid = .error (MapChain.absent oid) := by
  obtain ⟨blocks, scanned, all⟩ := scanned_of_closes makes legal found closes
  rw [scanned.resolve_eq, all, MapChain.firstMapping_eq_error]
  refine ⟨rfl, fun mapping mem same => missing ?_⟩
  rw [← oids_ephemeralMappings, ← same]
  exact List.mem_map_of_mem mem

theorem ephemeral_listed (ready : d.Prepares p) {i : Nat} (h : i < d.ephemeral.length) :
    ∃ bytes, ObjectDraft.raw d.order d.size (ObjectDraft.header d.ephemeral[i].1 d.xid
        (d.ephemeral[i].2 ||| TypeWord.ephemeralFlag) 0) (wordBytes .little d.ephemeral[i].1)
        = .ok bytes ∧ (ephemeralAddress i, bytes) ∈ p.ephemeral := by
  obtain ⟨length_eq, each⟩ := mapM_zipIdx_eq_ok ready.ephemeral_eq
  obtain ⟨bytes, written, same⟩ := bind_eq_ok.mp (each i h (by omega))
  refine ⟨bytes, written, ?_⟩
  have pair_eq : (ephemeralAddress i, bytes) = p.ephemeral[i] := Except.ok.inj same
  rw [pair_eq]
  exact List.getElem_mem _

structure DeliveredEphemeral (d : ContainerDraft) (built : ContainerImage) (i : Nat)
    (h : i < d.ephemeral.length) (o : ResolvedObject) : Prop where
  reference_eq : o.reference = .ephemeral d.ephemeral[i].1
  placed_eq : built.layout.ephemeral[i]? = some ⟨d.ephemeral[i].1, d.xid, o.address⟩
  block_eq : built.image.block? o.address = some o.bytes
  oid_eq : o.header.oid = d.ephemeral[i].1
  xid_eq : o.header.xid = d.xid
  type_eq : o.header.typeWord = d.ephemeral[i].2 ||| TypeWord.ephemeralFlag
  payload_eq : ∃ rest, o.payload = wordBytes .little d.ephemeral[i].1 ++ Bytes.zeros rest

include makes legal found in
theorem yields_place_ephemeral {s : Superblock} {q : Pending} (closes : Closes d p s q)
    {c : Container} (opened : OpenedBy d p source s q.2 c)
    (distinct : (d.ephemeral.map Prod.fst).Nodup) {i : Nat} (h : i < d.ephemeral.length)
    (free : reservedIds ≤ d.ephemeral[i].1) (lookup : Resolver.Lookup) :
    Yields (Memory.Sound contents size d.order)
      (c.resolver.place lookup (.ephemeral d.ephemeral[i].1)) (.ok ⟨ephemeralAddress i, 1⟩) := by
  have reads := opened.bound.reads
  have resolved : Yields (Memory.Sound contents size d.order)
      ((d.chainOf s).resolve source.remembered d.ephemeral[i].1)
      ((d.chainOf s).resolve source d.ephemeral[i].1) :=
    MapChain.yields_resolve (fun _ _ sound => sound) d.ephemeral[i].1
  rw [chain_resolves makes legal found closes distinct h, ← reads.source_eq] at resolved
  refine (Resolver.yields_rejectReserved free).bind ?_
  rw [opened.checkpoint_eq]
  exact resolved.bind (yields_one_block legal found reads (ephemeralAddress i))

include makes legal found in
/-- An ephemeral object is read from its block, by whichever superblock the container is open. -/
theorem yields_ephemeral {s : Superblock} {q : Pending} (closes : Closes d p s q) {c : Container}
    (opened : OpenedBy d p source s q.2 c) (distinct : (d.ephemeral.map Prod.fst).Nodup)
    {i : Nat} (h : i < d.ephemeral.length) (free : reservedIds ≤ d.ephemeral[i].1)
    (plain : TypeWord.flags d.ephemeral[i].2 = 0) :
    ∃ o, DeliveredEphemeral d built i h o ∧ Yields (Memory.Sound contents size d.order)
      (c.resolver.resolve (.ephemeral d.ephemeral[i].1)) (.ok o) := by
  obtain ⟨roomy, -, addressable⟩ := size_bounds legal
  have header_size : ObjectHeader.size = 32 := rfl
  obtain ⟨bytes, made, mem⟩ := ephemeral_listed makes.toPrepares h
  have pending : (ephemeralAddress i, bytes) ∈ d.pendingOf p := mem_pendingOf.mpr (.inl mem)
  have holds := ObjectDraft.raw_holds addressable made
  obtain ⟨sum, parsed⟩ := holds.header (by omega)
  have sound : identityFault? (.ephemeral d.ephemeral[i].1)
      { ObjectDraft.header d.ephemeral[i].1 d.xid (d.ephemeral[i].2 ||| TypeWord.ephemeralFlag) 0
        with checksum := sum } = none := by
    have stored := ephemeral_of_plain plain
    rw [identityFault?, if_neg (fun other => other rfl), if_neg (fun other => other stored)]
  have placed := yields_place_ephemeral makes legal found closes opened distinct h free
    c.resolver.lookupMapping
  refine ⟨_, ?_, Resolver.yields_resolve opened.bound.reads placed (found.holds _ pending)
    holds.verified parsed sound⟩
  refine ⟨rfl, ?_, (block_of_pending makes legal pending).1, rfl, rfl, rfl, _,
    ObjectDraft.raw_payload addressable made⟩
  rw [← makes.layout_eq]
  simp [layoutOf, placedEphemeral, h]

include makes legal found in
theorem yields_missing {s : Superblock} {q : Pending} (closes : Closes d p s q) {c : Container}
    (opened : OpenedBy d p source s q.2 c) {oid : ObjectId} (free : reservedIds ≤ oid)
    (missing : oid ∉ d.ephemeral.map Prod.fst) : Yields (Memory.Sound contents size d.order)
      (c.resolver.resolve (.ephemeral oid)) (.error (MapChain.absent oid)) := by
  have resolved : Yields (Memory.Sound contents size d.order)
      ((d.chainOf s).resolve source.remembered oid) ((d.chainOf s).resolve source oid) :=
    MapChain.yields_resolve (fun _ _ sound => sound) oid
  rw [chain_misses makes legal found closes missing, ← opened.bound.reads.source_eq] at resolved
  refine Yields.bind_error ((Resolver.yields_rejectReserved free).bind ?_)
  rw [opened.checkpoint_eq]
  exact resolved.bind_error

include makes legal found in
theorem yields_checkpointMappings {s : Superblock} {q : Pending} (closes : Closes d p s q)
    {c : Container} (opened : OpenedBy d p source s q.2 c) :
    Yields (Memory.Sound contents size d.order) c.checkpointMappings (.ok d.ephemeralMappings) := by
  obtain ⟨blocks, scanned, all⟩ := scanned_of_closes makes legal found closes
  have listed_eq : (d.chainOf s).mappings source = .ok d.ephemeralMappings := by
    rw [scanned.mappings_eq, all]
    rfl
  rw [Container.checkpointMappings, opened.checkpoint_eq, opened.bound.reads.source_eq, ← listed_eq]
  exact MapChain.yields_mappings fun _ _ sound => sound

end Made

end ContainerDraft

end ObjectStore
