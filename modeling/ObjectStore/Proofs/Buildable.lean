import ObjectStore.Proofs.BuiltContainer

/-
Containers that can be built. A draft that keeps to the room of the checkpoint areas, and each of
whose trees is one node, always becomes an image.
-/
namespace ObjectStore

open ObjectStore.Tree NodeDraft

theorem chunks_one {n : Nat} {l : List α} (few : l.length ≤ n) : (chunks n l).length ≤ 1 := by
  cases l with
  | nil => simp [chunks]
  | cons a rest =>
    rw [List.length_cons] at few
    have none_left : rest.drop (n - 1) = [] := List.drop_eq_nil_of_le (by omega)
    rw [chunks, none_left]
    simp [chunks]

namespace TreeDraft

variable {d : TreeDraft} {sizes : EntrySizes} {entries : List Entry}

theorem plan_one (wide : 2 ≤ d.fanout) (few : entries.length ≤ d.fanout) :
    d.plan wide entries = ([], ⟨0, 0, true, entries⟩) := by
  have one : (d.leafGroups entries).length ≤ 1 := by
    unfold leafGroups
    split
    · exact Nat.le_refl 1
    · exact chunks_one few
  have whole : (d.leafGroups entries).headD [] = entries := by
    cases entries with
    | nil => rfl
    | cons a rest =>
      rw [List.length_cons] at few
      have none_left : rest.drop (d.fanout - 1) = [] := List.drop_eq_nil_of_le (by omega)
      have all : rest.take (d.fanout - 1) = rest := List.take_of_length_le (by omega)
      simp [leafGroups, chunks, none_left, all]
  rw [plan, d.planFrom_one wide one, whole]

/-- A tree of one node is built if the node has room for its entries and a footer. -/
theorem build_one (fixed : d.layout = .fixed sizes) (small : d.nodeSize ≤ largestNode)
    (wide : 2 ≤ d.fanout) (few : entries.length ≤ d.fanout)
    (lengths : ∀ entry ∈ entries, entry.1.size = sizes.key.toNat ∧
      entry.2.size = sizes.value.toNat)
    (room : NodeHeader.size + entries.length * 4 + entries.length * sizes.key.toNat +
      entries.length * sizes.value.toNat + Footer.size ≤ d.nodeSize) :
    ∃ t, d.build entries = .ok t ∧ t.nodes.length = 1 := by
  have plan := plan_one wide few
  obtain ⟨t, built⟩ := build_succeeds wide entries (by
    rw [plan]
    intro p mem
    rw [List.mem_singleton.mp mem]
    exact buildNode_fixed entries fixed small (Nat.zero_lt_succ _) lengths room)
  obtain ⟨_, length_eq, -⟩ := buildNode_of_build built
  rw [plan] at length_eq
  exact ⟨t, built, length_eq⟩

end TreeDraft

namespace ContainerDraft

structure Modest (d : ContainerDraft) : Prop where
  legal : d.blockSize ∈ BlockSize.legal
  grouped : d.mappingsPerBlock ≠ 0
  second : ¬d.xid ≤ 1
  few_ephemeral : d.ephemeral.length ≤ dataBlocks.toNat
  ring_room : d.mapGroups.length + 1 + (if d.older then 2 else 0) ≤ descBlocks.toNat
  wide : 2 ≤ d.fanout
  one_node : d.versions.length ≤ d.fanout ∧ d.snapshots.length ≤ d.fanout
  node_room : d.versions.length ≤ 111 ∧ d.snapshots.length ≤ 111
  few_volumes : d.volumes.length ≤ Superblock.volumeSlots

variable {d : ContainerDraft}

theorem ringAddress_succeeds {s : Superblock} (base : s.descBase = descBase)
    (blocks : s.descBlocks = descBlocks) (i : UInt32) :
    ∃ address, ringAddress s i = .ok address := by
  have ring : s.descBlocks ≠ 0 := by
    rw [blocks]
    decide
  have start : s.descBase.toNat = 1 := by
    rw [base]
    rfl
  have slot_lt := Superblock.slotOf_lt ring i
  have width := s.descBlocks.toNat_lt
  have found : s.checkpointBlock i = some (1 + s.slotOf i).toUInt64 := by
    rw [Superblock.checkpointBlock_eq_some_iff ring, start]
    exact UInt64.toNat_ofNat_of_lt' (by change _ < 2 ^ 64; omega)
  rw [ringAddress, found]
  exact ⟨_, rfl⟩

theorem size_content (d : ContainerDraft) (plan : ObjectPlan) : (d.content plan).size = 8 := by
  unfold content
  split
  · rw [Bytes.size_ofList, List.length_append, ByteOrder.length_bytesOf, ByteOrder.length_bytesOf]
    rfl
  · exact size_wordBytes _ _

theorem length_mapGroups (group : List EphemeralMapping) (mem : group ∈ d.mapGroups) :
    group.length ≤ d.ephemeral.length := by
  have all : d.ephemeralMappings.length = d.ephemeral.length := by
    simp [ephemeralMappings]
  rw [mapGroups] at mem
  split at mem
  · rw [List.mem_singleton.mp mem]
    exact Nat.zero_le _
  · have part := (List.sublist_flatten_of_mem mem).length_le
    rw [chunks_flatten, all] at part
    exact part

/-- As many mappings as there are ephemeral objects at most fit a map block. -/
theorem few_fit {size n : Nat} (roomy : minimumBlockSize.toNat ≤ size) (few : n ≤ 16) :
    n ≤ MapBlock.capacity size := by
  have smallest : minimumBlockSize.toNat = 4096 := rfl
  have width : EphemeralMapping.codec.size = 40 := rfl
  have front : MapBlock.frontSize = 40 := rfl
  rw [MapBlock.capacity, width, front]
  omega

section Modest

variable (modest : d.Modest)

include modest in
theorem Modest.ephemeral : ∃ pending, d.buildEphemeral = .ok pending := by
  obtain ⟨roomy, -, addressable⟩ := size_bounds modest.legal
  have header_size : ObjectHeader.size = 32 := rfl
  apply mapM_succeeds
  rintro ⟨⟨oid, objectType⟩, i⟩ -
  obtain ⟨b, made⟩ : ∃ b, ObjectDraft.raw d.order d.size
      (ObjectDraft.header oid d.xid (objectType ||| TypeWord.ephemeralFlag) 0)
      (wordBytes .little oid) = .ok b :=
    ObjectDraft.raw_succeeds addressable (by rw [size_wordBytes]; omega)
  exact ⟨_, bind_eq_ok.mpr ⟨b, made, rfl⟩⟩

include modest in
theorem Modest.objects : ∃ pending, d.buildObjects = .ok pending := by
  obtain ⟨roomy, -, addressable⟩ := size_bounds modest.legal
  have header_size : ObjectHeader.size = 32 := rfl
  apply mapM_succeeds
  rintro ⟨plan, i⟩ -
  obtain ⟨b, made⟩ : ∃ b, d.buildObject plan = .ok b := by
    rw [buildObject_eq]
    exact ObjectDraft.raw_succeeds addressable (by rw [size_content]; omega)
  exact ⟨_, bind_eq_ok.mpr ⟨b, made, rfl⟩⟩

include modest in
/-- The entries of a tree fit one node if they are few. -/
theorem Modest.oneNode (sizes : EntrySizes) (subtype : UInt32) (first : BlockAddress)
    {entries : List Entry} (narrow : sizes.key.toNat ≤ 16 ∧ sizes.value.toNat ≤ 16)
    (few : entries.length ≤ 111) (one : entries.length ≤ d.fanout)
    (lengths : ∀ entry ∈ entries, entry.1.size = sizes.key.toNat ∧
      entry.2.size = sizes.value.toNat) :
    ∃ t, (d.treeDraft sizes subtype first).build entries = .ok t ∧ t.nodes.length = 1 := by
  obtain ⟨roomy, small, -⟩ := size_bounds modest.legal
  have head : NodeHeader.size = 56 := rfl
  have foot : Footer.size = 40 := rfl
  have sized : (d.treeDraft sizes subtype first).nodeSize = d.size := rfl
  have keys := Nat.mul_le_mul few narrow.1
  have values := Nat.mul_le_mul few narrow.2
  exact TreeDraft.build_one rfl small modest.wide one lengths (by omega)

include modest in
theorem Modest.mappingTree : ∃ t, d.buildMappingTree = .ok t ∧ t.nodes.length = 1 := by
  have count : (Entry.ofVersions d.order d.versions).length = d.versions.length := by
    rw [Entry.ofVersions, List.length_map, List.length_mergeSort]
  have few := modest.node_room.1
  have one := modest.one_node.1
  rw [← count] at few one
  obtain ⟨t, built, single⟩ := modest.oneNode mappingSizes TypeWord.objectMap treeBase
    (by decide) few one (by
      intro entry mem
      obtain ⟨v, -, rfl⟩ := List.mem_map.mp mem
      exact ⟨VersionKey.size_encode _ _, Mapping.size_encode _ _⟩)
  refine ⟨t, bind_eq_ok.mpr ⟨t, mapError_eq_ok.mpr built, ?_⟩, single⟩
  exact checked_eq_ok.mpr ⟨by rw [endOf, single]; decide, rfl⟩

include modest in
theorem Modest.snapshotTree {first : BlockAddress} (behind : first.toNat = 35) :
    ∃ snapshots, d.buildSnapshotTree first = .ok snapshots ∧
      ∀ t, snapshots = some t → t.nodes.length = 1 := by
  have count : (Entry.ofSnapshots d.order
      (d.snapshots.map fun s => (s.1, Snapshot.mk s.2 0))).length = d.snapshots.length := by
    rw [Entry.ofSnapshots, List.length_map, List.length_mergeSort, List.length_map]
  have few := modest.node_room.2
  have one := modest.one_node.2
  rw [← count] at few one
  obtain ⟨t, built, single⟩ := modest.oneNode snapshotSizes TypeWord.snapshotTree first
    (by decide) few one (by
      intro entry mem
      obtain ⟨v, -, rfl⟩ := List.mem_map.mp mem
      exact ⟨size_wordBytes _ _, Snapshot.size_encode _ _⟩)
  have room : ¬objectBase < endOf first t := by
    have base := toNat_objectBase
    have one_more : (1 : Nat).toUInt64.toNat = 1 := rfl
    rw [UInt64.lt_iff_toNat_lt, endOf, single, UInt64.toNat_add, one_more]
    omega
  unfold buildSnapshotTree
  split
  · refine ⟨none, rfl, ?_⟩
    intro t' same
    cases same
  · refine ⟨some t, bind_eq_ok.mpr ⟨t, mapError_eq_ok.mpr built, checked_eq_ok.mpr ⟨room, rfl⟩⟩, ?_⟩
    intro t' same
    cases same
    exact single

include modest in
theorem Modest.mapChain : ∃ addresses chain,
    ((List.range d.mapGroups.length).mapM fun i => ringAddress d.closing i.toUInt32)
      = .ok addresses ∧
    ObjectDraft.mapChain d.order d.size d.xid addresses d.mapGroups true = .ok chain := by
  obtain ⟨roomy, -, addressable⟩ := size_bounds modest.legal
  obtain ⟨base, ring⟩ := closing_ring d
  have limit : dataBlocks.toNat = 16 := rfl
  have word : UInt32.size = 4294967296 := rfl
  have most := modest.few_ephemeral
  obtain ⟨addresses, found⟩ := mapM_succeeds (l := List.range d.mapGroups.length)
    fun i _ => ringAddress_succeeds base ring i.toUInt32
  obtain ⟨length_eq, -⟩ := mapM_eq_ok found
  rw [List.length_range] at length_eq
  obtain ⟨chain, chained⟩ : ∃ chain,
      ObjectDraft.mapChain d.order d.size d.xid addresses d.mapGroups true = .ok chain := by
    rw [ObjectDraft.mapChain, if_neg (fun other => other length_eq)]
    apply mapM_succeeds
    rintro ⟨⟨address, mappings⟩, index⟩ mem
    have inGroups := (List.of_mem_zip (List.fst_mem_of_mem_zipIdx mem)).2
    have few := length_mapGroups mappings inGroups
    exact ObjectDraft.mapBlock_succeeds roomy addressable (few_fit roomy (by omega)) (by omega)
  exact ⟨addresses, chain, found, chained⟩

include modest in
theorem Modest.older : ∃ older,
    (if d.older then (d.buildOlder d.closing).map some else pure none) = .ok older := by
  obtain ⟨roomy, -, addressable⟩ := size_bounds modest.legal
  have most := modest.few_ephemeral
  have limit : dataBlocks.toNat = 16 := rfl
  have word : UInt32.size = 4294967296 := rfl
  have all : d.ephemeralMappings.length = d.ephemeral.length := by
    simp [ephemeralMappings]
  obtain ⟨-, -, -, ring, base, -⟩ := superblock_fits (d := d) (.inr rfl)
  split
  · obtain ⟨mapAt, map_found⟩ := ringAddress_succeeds base ring 0
    obtain ⟨superblockAt, superblock_found⟩ := ringAddress_succeeds base ring 1
    have few : d.ephemeralMappings.length ≤ MapBlock.capacity d.size := few_fit roomy (by omega)
    obtain ⟨map, map_made⟩ : ∃ map, ObjectDraft.mapBlock d.order d.size
        (d.olderSuperblockFor d.closing).header.xid 0 mapAt true d.ephemeralMappings = .ok map :=
      ObjectDraft.mapBlock_succeeds roomy addressable few (by omega)
    obtain ⟨bytes, made⟩ : ∃ bytes, ObjectDraft.superblock d.order d.size
        (d.olderSuperblockFor d.closing) = .ok bytes :=
      ObjectDraft.superblock_succeeds roomy addressable modest.few_volumes
    have older_made : d.buildOlder d.closing = .ok ((mapAt, map), (superblockAt, bytes)) := by
      refine bind_eq_ok.mpr ⟨_, map_found, bind_eq_ok.mpr ⟨_, superblock_found, ?_⟩⟩
      refine checked_eq_ok.mpr ⟨Nat.not_lt.mpr few, ?_⟩
      exact bind_eq_ok.mpr ⟨_, map_made, bind_eq_ok.mpr ⟨_, made, rfl⟩⟩
    exact ⟨_, map_eq_ok.mpr ⟨_, older_made, rfl⟩⟩
  · exact ⟨none, rfl⟩

include modest in
theorem Modest.prepares : ∃ p, d.Prepares p ∧ p.tree.nodes.length = 1 ∧
    ∀ t, p.snapshotTree = some t → t.nodes.length = 1 := by
  obtain ⟨roomy, -, addressable⟩ := size_bounds modest.legal
  obtain ⟨base, ring⟩ := closing_ring d
  obtain ⟨ephemeral, ephemeral_eq⟩ := modest.ephemeral
  obtain ⟨objects, objects_eq⟩ := modest.objects
  obtain ⟨tree, tree_eq, single⟩ := modest.mappingTree
  have behind : (endOf treeBase tree).toNat = 35 := by
    rw [endOf, single]
    decide
  obtain ⟨snapshots, snapshots_eq, one_snapshot⟩ := modest.snapshotTree behind
  obtain ⟨addresses, chain, addresses_eq, chain_eq⟩ := modest.mapChain
  obtain ⟨superblockAt, superblockAt_eq⟩ :=
    ringAddress_succeeds base ring d.mapGroups.length.toUInt32
  obtain ⟨older, older_eq⟩ := modest.older
  obtain ⟨superblock, superblock_eq⟩ : ∃ b, ObjectDraft.superblock d.order d.size d.closing
      = .ok b := ObjectDraft.superblock_succeeds roomy addressable modest.few_volumes
  obtain ⟨descriptor, descriptor_eq⟩ : ∃ b, ObjectDraft.mapDescriptor d.order d.size mapAddress
      d.xid tree.root.address ((snapshots.map (·.root.address)).map fun root =>
        ⟨root, d.snapshots.length.toUInt32, d.latestSnapshot⟩) = .ok b :=
    ObjectDraft.mapDescriptor_succeeds roomy addressable
  exact ⟨⟨ephemeral, objects, tree, snapshots, descriptor, addresses, chain, superblockAt,
    superblock, older⟩, ⟨modest.grouped, modest.second, modest.few_ephemeral, ephemeral_eq,
    objects_eq, tree_eq, snapshots_eq, descriptor_eq, modest.ring_room, addresses_eq,
    superblockAt_eq, chain_eq, superblock_eq, older_eq⟩, single, one_snapshot⟩

include modest in
theorem Modest.counts : d.blockCount.toNat = 1058 + max d.objects.length 1 ∧
    d.objects.length ≤ 111 := by
  have all : d.versions.length = d.mappings.length + d.objects.length := by
    simp [versions]
  have few := modest.node_room.1
  have base := toNat_objectBase
  have small : (max d.objects.length 1).toUInt64.toNat = max d.objects.length 1 :=
    Nat.mod_eq_of_lt (by omega)
  refine ⟨?_, by omega⟩
  rw [blockCount, UInt64.toNat_add, small, base]
  omega

theorem node_address {draft : TreeDraft} {entries : List Entry} {t : BuiltTree}
    (built : draft.build entries = .ok t) (single : t.nodes.length = 1) {q : Pending}
    (mem : q ∈ pendingNodes t) : q.1 = draft.firstAddress := by
  obtain ⟨n, inTree, rfl⟩ := List.mem_map.mp mem
  obtain ⟨i, h, rfl⟩ := List.getElem_of_mem inTree
  have first : i = 0 := by omega
  subst first
  have zero : (0 : Nat).toUInt64 = 0 := rfl
  change t.nodes[0].address = _
  rw [(TreeDraft.address_of_build built h).1, TreeDraft.addressOf, zero, UInt64.add_zero]

include modest in
theorem Modest.inside {p : ContainerParts} (ready : d.Prepares p)
    (single : p.tree.nodes.length = 1)
    (one_snapshot : ∀ t, p.snapshotTree = some t → t.nodes.length = 1) {q : Pending}
    (mem : q ∈ d.pendingOf p) : q.1.toNat < d.blockCount.toNat := by
  obtain ⟨count_eq, few⟩ := modest.counts
  obtain ⟨base, ring⟩ := closing_ring d
  have most := ready.few_ephemeral
  have limit : dataBlocks.toNat = 16 := rfl
  rw [count_eq]
  rcases mem_pendingOf.mp mem with mem | mem | mem | mem | rfl | mem | rfl | mem | rfl
  · obtain ⟨i, -, -, inside, address_eq, -⟩ := ephemeral_placed ready mem
    rw [address_eq, toNat_ephemeralAddress (by omega)]
    omega
  · obtain ⟨i, inside, address_eq, -⟩ := object_placed ready mem
    have start := toNat_objectBase
    have small : i.toUInt64.toNat = i := Nat.mod_eq_of_lt (by omega)
    rw [address_eq, objectAddress, UInt64.toNat_add, start, small]
    omega
  · obtain ⟨built, -⟩ := buildMappingTree_eq_ok ready.tree_eq
    have start : (d.treeDraft mappingSizes TypeWord.objectMap treeBase).firstAddress.toNat = 34 :=
      toNat_treeBase
    rw [node_address built single mem, start]
    omega
  · obtain ⟨t, entries, built, -, is_snapshot, inNodes⟩ := snapshot_placed ready mem
    have start : (d.treeDraft snapshotSizes TypeWord.snapshotTree
        (endOf treeBase p.tree)).firstAddress.toNat = 35 := by
      change (endOf treeBase p.tree).toNat = 35
      rw [endOf, single]
      decide
    rw [node_address built (one_snapshot t is_snapshot) inNodes, start]
    omega
  · rw [toNat_mapAddress]
    omega
  · obtain ⟨⟨i, found⟩, -⟩ := chain_placed ready mem
    have place := ringAddress_inside base ring found
    omega
  · have place := ringAddress_inside base ring ready.superblockAt_eq
    exact Nat.lt_of_le_of_lt place.2 (by omega)
  · obtain ⟨⟨i, found⟩, -⟩ := older_placed ready mem
    obtain ⟨-, -, -, ring, base, -⟩ := superblock_fits (d := d) (.inr rfl)
    have place := ringAddress_inside base ring found
    omega
  · exact Nat.lt_of_lt_of_le (Nat.zero_lt_succ 1057) (Nat.le_add_right _ _)

include modest in
/-- A draft within the limits is built, and what is built can be read. -/
theorem Modest.builds :
    ∃ built source, d.build = .ok built ∧ built.image.toSource = .ok source := by
  obtain ⟨p, ready, single, one_snapshot⟩ := modest.prepares
  obtain ⟨roomy, small, -⟩ := size_bounds modest.legal
  obtain ⟨count_eq, few⟩ := modest.counts
  have largest : largestNode = 65536 := rfl
  have same : d.size = d.blockSize.toNat := rfl
  have some_bytes : 0 < d.blockSize.toNat := by omega
  have sizes : ∀ q ∈ d.pendingOf p, q.2.size = d.blockSize.toNat :=
    fun q mem => size_of_pending ready modest.legal mem
  obtain ⟨image, image_eq⟩ : ∃ image,
      putAll (Image.blank d.blockSize d.blockCount) (d.pendingOf p) = .ok image :=
    putAll_succeeds some_bytes sizes fun q mem => modest.inside ready single one_snapshot mem
  have makes : d.Makes p ⟨image, d.layoutOf p⟩ := ⟨ready, image_eq, rfl⟩
  obtain ⟨image_is, -⟩ := putAll_eq_ok some_bytes sizes image_eq
  have held : image.blockCount.toNat * image.blockSize.toNat < Bytes.bufferLimit := by
    have limit : Bytes.bufferLimit = 9223372036854775808 := rfl
    have most : d.blockCount.toNat * d.blockSize.toNat ≤ 1169 * 65536 :=
      Nat.mul_le_mul (by omega) (by omega)
    rw [image_is]
    change d.blockCount.toNat * d.blockSize.toNat < Bytes.bufferLimit
    omega
  have legal : image.blockSize ∈ BlockSize.legal := by
    rw [image_is]
    exact modest.legal
  obtain ⟨source, shown⟩ :=
    Image.toSource_succeeds (filled_of_build makes modest.legal) legal held
  exact ⟨_, source, build_eq_ok.mpr ⟨p, makes⟩, shown⟩

end Modest

end ContainerDraft

end ObjectStore
