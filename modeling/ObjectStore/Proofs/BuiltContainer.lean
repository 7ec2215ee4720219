import ObjectStore.Proofs.BuiltImage
import ObjectStore.Proofs.BuiltObjects
import ObjectStore.Proofs.BuiltTree
import ObjectStore.Proofs.RingSlots

/-
Where the parts of a built container lie.

  0            1 .. 16   17 .. 32    33    34 .. 1057           1058 ..
  | superblock | ring    | ephemeral | map | trees of the map   | virtual objects
-/
namespace ObjectStore

open ObjectStore.Tree

structure ContainerParts where
  ephemeral : List ContainerDraft.Pending
  objects : List ContainerDraft.Pending
  tree : BuiltTree
  snapshotTree : Option BuiltTree
  descriptor : Bytes
  mapAddresses : List BlockAddress
  chain : List Bytes
  superblockAt : BlockAddress
  superblock : Bytes
  older : Option (ContainerDraft.Pending × ContainerDraft.Pending)

namespace ContainerDraft

def firstOf (d : ContainerDraft) (p : ContainerParts) : Bytes :=
  match p.older with
  | some (_, (_, stale)) => if d.stale then stale else p.superblock
  | none => p.superblock

def olderBlocks (p : ContainerParts) : List Pending :=
  match p.older with
  | some (map, superblock) => [map, superblock]
  | none => []

def snapshotNodes (p : ContainerParts) : List Pending :=
  (p.snapshotTree.map pendingNodes).getD []

/-- Everything that is put on the image, in the order in which it is put. -/
def pendingOf (d : ContainerDraft) (p : ContainerParts) : List Pending :=
  p.ephemeral ++ p.objects ++ pendingNodes p.tree ++ snapshotNodes p ++
    [(mapAddress, p.descriptor)] ++ p.mapAddresses.zip p.chain ++
    [(p.superblockAt, p.superblock)] ++ olderBlocks p ++ [(0, d.firstOf p)]

/-- The superblock of a container whose checkpoint has its map blocks in front of it. -/
def closing (d : ContainerDraft) : Superblock := d.superblockFor d.mapGroups.length.toUInt32

def snapshotsOf (d : ContainerDraft) (p : ContainerParts) : Option ObjectDraft.SnapshotTree :=
  (p.snapshotTree.map (·.root.address)).map fun root =>
    ⟨root, d.snapshots.length.toUInt32, d.latestSnapshot⟩

def layoutOf (d : ContainerDraft) (p : ContainerParts) : ContainerLayout where
  blockSize := d.blockSize
  blockCount := d.blockCount
  xid := d.xid
  objectMap := mapAddress
  mappingTreeRoot := p.tree.root.address
  mappingTreeNodes := p.tree.nodes.length
  snapshotTreeRoot := p.snapshotTree.map (·.root.address)
  mapBlocks := p.mapAddresses
  superblock := p.superblockAt
  olderSuperblock := p.older.map fun blocks => blocks.2.1
  ephemeral := d.placedEphemeral
  objects := d.placedObjects

structure Prepares (d : ContainerDraft) (p : ContainerParts) : Prop where
  grouped : d.mappingsPerBlock ≠ 0
  second : ¬d.xid ≤ 1
  few_ephemeral : d.ephemeral.length ≤ dataBlocks.toNat
  ephemeral_eq : d.buildEphemeral = .ok p.ephemeral
  objects_eq : d.buildObjects = .ok p.objects
  tree_eq : d.buildMappingTree = .ok p.tree
  snapshotTree_eq : d.buildSnapshotTree (endOf treeBase p.tree) = .ok p.snapshotTree
  descriptor_eq : ObjectDraft.mapDescriptor d.order d.size mapAddress d.xid p.tree.root.address
    (d.snapshotsOf p) = .ok p.descriptor
  ring_room : d.mapGroups.length + 1 + (if d.older then 2 else 0) ≤ descBlocks.toNat
  mapAddresses_eq : ((List.range d.mapGroups.length).mapM fun i =>
    ringAddress d.closing i.toUInt32) = .ok p.mapAddresses
  superblockAt_eq : ringAddress d.closing d.mapGroups.length.toUInt32 = .ok p.superblockAt
  chain_eq : ObjectDraft.mapChain d.order d.size d.xid p.mapAddresses d.mapGroups true = .ok p.chain
  superblock_eq : ObjectDraft.superblock d.order d.size d.closing = .ok p.superblock
  older_eq : (if d.older then (d.buildOlder d.closing).map some else pure none) = .ok p.older

structure Makes (d : ContainerDraft) (p : ContainerParts) (built : ContainerImage) : Prop
    extends d.Prepares p where
  image_eq : putAll (Image.blank d.blockSize d.blockCount) (d.pendingOf p) = .ok built.image
  layout_eq : d.layoutOf p = built.layout

theorem build_eq_ok {d : ContainerDraft} {built : ContainerImage} :
    d.build = .ok built ↔ ∃ p, d.Makes p built := by
  constructor
  · intro run
    unfold build at run
    obtain ⟨grouped, run⟩ := checked_eq_ok.mp run
    obtain ⟨second, run⟩ := checked_eq_ok.mp run
    obtain ⟨few_ephemeral, run⟩ := checked_eq_ok.mp run
    obtain ⟨ephemeral, ephemeral_eq, run⟩ := bind_eq_ok.mp run
    obtain ⟨objects, objects_eq, run⟩ := bind_eq_ok.mp run
    obtain ⟨tree, tree_eq, run⟩ := bind_eq_ok.mp run
    obtain ⟨snapshotTree, snapshotTree_eq, run⟩ := bind_eq_ok.mp run
    obtain ⟨descriptor, descriptor_eq, run⟩ := bind_eq_ok.mp run
    obtain ⟨ring_room, run⟩ := checked_eq_ok.mp run
    obtain ⟨mapAddresses, mapAddresses_eq, run⟩ := bind_eq_ok.mp run
    obtain ⟨superblockAt, superblockAt_eq, run⟩ := bind_eq_ok.mp run
    obtain ⟨chain, chain_eq, run⟩ := bind_eq_ok.mp run
    obtain ⟨superblock, superblock_eq, run⟩ := bind_eq_ok.mp run
    dsimp only at run
    rw [branch_bind] at run
    obtain ⟨older, older_eq, run⟩ := bind_eq_ok.mp run
    obtain ⟨image, image_eq, same⟩ := bind_eq_ok.mp run
    cases same
    exact ⟨⟨ephemeral, objects, tree, snapshotTree, descriptor, mapAddresses, chain,
      superblockAt, superblock, older⟩, ⟨grouped, second, Nat.le_of_not_lt few_ephemeral,
      ephemeral_eq, objects_eq, tree_eq, snapshotTree_eq, descriptor_eq,
      Nat.le_of_not_lt ring_room, mapAddresses_eq, superblockAt_eq, chain_eq, superblock_eq,
      older_eq⟩, image_eq, rfl⟩
  · rintro ⟨p, makes⟩
    unfold build
    refine checked_eq_ok.mpr ⟨makes.grouped, checked_eq_ok.mpr ⟨makes.second, ?_⟩⟩
    refine checked_eq_ok.mpr ⟨Nat.not_lt.mpr makes.few_ephemeral, ?_⟩
    refine bind_eq_ok.mpr ⟨_, makes.ephemeral_eq, bind_eq_ok.mpr ⟨_, makes.objects_eq, ?_⟩⟩
    refine bind_eq_ok.mpr ⟨_, makes.tree_eq, bind_eq_ok.mpr ⟨_, makes.snapshotTree_eq, ?_⟩⟩
    refine bind_eq_ok.mpr ⟨_, makes.descriptor_eq, ?_⟩
    refine checked_eq_ok.mpr ⟨Nat.not_lt.mpr makes.ring_room, ?_⟩
    refine bind_eq_ok.mpr ⟨_, makes.mapAddresses_eq, bind_eq_ok.mpr ⟨_, makes.superblockAt_eq, ?_⟩⟩
    refine bind_eq_ok.mpr ⟨_, makes.chain_eq, bind_eq_ok.mpr ⟨_, makes.superblock_eq, ?_⟩⟩
    dsimp only
    rw [branch_bind]
    refine bind_eq_ok.mpr ⟨_, makes.older_eq, bind_eq_ok.mpr ⟨_, makes.image_eq, ?_⟩⟩
    have whole : (⟨built.image, d.layoutOf p⟩ : ContainerImage) = built := by
      rw [makes.layout_eq]
    exact congrArg Except.ok whole

theorem Prepares.older_built {d : ContainerDraft} {p : ContainerParts} (ready : d.Prepares p)
    {blocks : Pending × Pending} (some_older : p.older = some blocks) :
    d.buildOlder d.closing = .ok blocks := by
  have older_eq := ready.older_eq
  rw [some_older] at older_eq
  split at older_eq
  · obtain ⟨blocks', made, same⟩ := map_eq_ok.mp older_eq
    rw [made, Option.some.inj same]
  · cases older_eq

/-- Blocks that count up to a place inside the image do not start over at zero. -/
theorem toNat_counted {first : BlockAddress} {n : Nat} {limit : UInt64}
    (inside : ∀ i, i < n → (first + i.toUInt64).toNat < limit.toNat) {i : Nat} (h : i ≤ n) :
    (first + i.toUInt64).toNat = first.toNat + i := by
  have low := first.toNat_lt
  have high := limit.toNat_lt
  have words : ∀ j, j < 18446744073709551616 →
      (first + j.toUInt64).toNat = (first.toNat + j) % 18446744073709551616 := by
    intro j small
    have same : j.toUInt64.toNat = j := Nat.mod_eq_of_lt small
    rw [UInt64.toNat_add, same]
  by_cases wraps : first.toNat + i < 18446744073709551616
  · rw [words i (by omega), Nat.mod_eq_of_lt wraps]
  -- A count that starts over has passed the last address, which no limit is above.
  · have last := inside (18446744073709551615 - first.toNat) (by omega)
    rw [words _ (by omega)] at last
    omega

theorem toNat_mapAddress : mapAddress.toNat = 33 := by decide

theorem toNat_treeBase : treeBase.toNat = 34 := by decide

theorem toNat_objectBase : objectBase.toNat = 1058 := by decide

theorem toNat_ephemeralAddress {i : Nat} (few : i ≤ dataBlocks.toNat) :
    (ephemeralAddress i).toNat = 17 + i := by
  have limit : dataBlocks.toNat = 16 := rfl
  have start : dataBase.toNat = 17 := rfl
  have small : i.toUInt64.toNat = i := Nat.mod_eq_of_lt (by omega)
  rw [ephemeralAddress, UInt64.toNat_add, start, small]
  omega

/-- The nodes of a tree lie one behind the other, and in front of the objects. -/
theorem nodes_placed {draft : TreeDraft} {entries : List Entry} {t : BuiltTree}
    (made : draft.build entries = .ok t) {limit : UInt64}
    (inside : ∀ q ∈ pendingNodes t, q.1.toNat < limit.toNat)
    (room : ¬objectBase < endOf draft.firstAddress t) :
    (endOf draft.firstAddress t).toNat = draft.firstAddress.toNat + t.nodes.length ∧
      draft.firstAddress.toNat + t.nodes.length ≤ 1058 ∧
      ∀ i (h : i < t.nodes.length), t.nodes[i].address.toNat = draft.firstAddress.toNat + i := by
  have address_eq : ∀ i (h : i < t.nodes.length),
      t.nodes[i].address = draft.firstAddress + i.toUInt64 :=
    fun i h => (TreeDraft.address_of_build made h).1
  have counted : ∀ i, i < t.nodes.length →
      (draft.firstAddress + i.toUInt64).toNat < limit.toNat := by
    intro i h
    rw [← address_eq i h]
    exact inside _ (List.mem_map_of_mem (List.getElem_mem h))
  have last : (endOf draft.firstAddress t).toNat = draft.firstAddress.toNat + t.nodes.length :=
    toNat_counted counted (Nat.le_refl _)
  refine ⟨last, ?_, fun i h => ?_⟩
  · have le := UInt64.le_iff_toNat_le.mp (UInt64.not_lt.mp room)
    rw [last, toNat_objectBase] at le
    exact le
  · rw [address_eq i h]
    exact toNat_counted counted (Nat.le_of_lt h)

theorem ringAddress_eq_ok {s : Superblock} (base : s.descBase = descBase)
    (blocks : s.descBlocks = descBlocks) {i : UInt32} {address : BlockAddress}
    (found : ringAddress s i = .ok address) :
    s.checkpointBlock i = some address ∧
      address.toNat = 1 + (s.descIndex.toNat + i.toNat) % 16 := by
  unfold ringAddress at found
  split at found
  · rename_i address' some_block
    cases found
    refine ⟨some_block, ?_⟩
    rwa [Superblock.checkpointBlock_eq_some_iff (by rw [blocks]; decide), Superblock.slotOf, base,
      blocks] at some_block
  · cases found

/-- Blocks of the ring lie in front of everything else but the first block. -/
theorem ringAddress_inside {s : Superblock} (base : s.descBase = descBase)
    (blocks : s.descBlocks = descBlocks) {i : UInt32} {address : BlockAddress}
    (found : ringAddress s i = .ok address) : 1 ≤ address.toNat ∧ address.toNat ≤ 16 := by
  obtain ⟨-, number⟩ := ringAddress_eq_ok base blocks found
  omega

theorem closing_ring (d : ContainerDraft) :
    d.closing.descBase = descBase ∧ d.closing.descBlocks = descBlocks := by
  refine ⟨rfl, ?_⟩
  change descBlocks &&& ~~~Superblock.scatteredFlag = descBlocks
  decide

variable {d : ContainerDraft} {p : ContainerParts} {built : ContainerImage}

theorem buildMappingTree_eq_ok {t : BuiltTree} (run : d.buildMappingTree = .ok t) :
    (d.treeDraft mappingSizes TypeWord.objectMap treeBase).build
        (Entry.ofVersions d.order d.versions) = .ok t ∧ ¬objectBase < endOf treeBase t := by
  obtain ⟨t', built, run⟩ := bind_eq_ok.mp run
  obtain ⟨room, same⟩ := checked_eq_ok.mp run
  cases same
  exact ⟨mapError_eq_ok.mp built, room⟩

theorem buildSnapshotTree_eq_ok {first : BlockAddress} {t : BuiltTree}
    (run : d.buildSnapshotTree first = .ok (some t)) : ∃ entries,
    (d.treeDraft snapshotSizes TypeWord.snapshotTree first).build entries = .ok t ∧
      ¬objectBase < endOf first t := by
  unfold buildSnapshotTree at run
  split at run
  · cases run
  · obtain ⟨t', built, run⟩ := bind_eq_ok.mp run
    obtain ⟨room, same⟩ := checked_eq_ok.mp run
    cases same
    exact ⟨_, mapError_eq_ok.mp built, room⟩

theorem buildOlder_eq_ok {s : Superblock} {blocks : Pending × Pending}
    (run : d.buildOlder s = .ok blocks) :
    ringAddress (d.olderSuperblockFor s) 0 = .ok blocks.1.1 ∧
      ringAddress (d.olderSuperblockFor s) 1 = .ok blocks.2.1 ∧
      ObjectDraft.mapBlock d.order d.size (d.olderSuperblockFor s).header.xid 0 blocks.1.1 true
        d.ephemeralMappings = .ok blocks.1.2 ∧
      ObjectDraft.superblock d.order d.size (d.olderSuperblockFor s) = .ok blocks.2.2 := by
  obtain ⟨mapAt, mapAt_eq, run⟩ := bind_eq_ok.mp run
  obtain ⟨superblockAt, superblockAt_eq, run⟩ := bind_eq_ok.mp run
  obtain ⟨-, run⟩ := checked_eq_ok.mp run
  obtain ⟨map, map_eq, run⟩ := bind_eq_ok.mp run
  obtain ⟨bytes, bytes_eq, same⟩ := bind_eq_ok.mp run
  cases same
  exact ⟨mapAt_eq, superblockAt_eq, map_eq, bytes_eq⟩

/-- The first block holds the superblock of the checkpoint or that of the older one. -/
theorem Prepares.first_is (ready : d.Prepares p) :
    ∃ s, (s = d.closing ∨ s = d.olderSuperblockFor d.closing) ∧
      ObjectDraft.superblock d.order d.size s = .ok (d.firstOf p) := by
  cases older : p.older with
  | none =>
    refine ⟨d.closing, .inl rfl, ?_⟩
    rw [firstOf, older]
    exact ready.superblock_eq
  | some blocks =>
    obtain ⟨-, -, -, superblock⟩ := buildOlder_eq_ok (ready.older_built older)
    cases stale : d.stale with
    | false =>
      refine ⟨d.closing, .inl rfl, ?_⟩
      simp only [firstOf, older, stale]
      exact ready.superblock_eq
    | true =>
      refine ⟨_, .inr rfl, ?_⟩
      simp only [firstOf, older, stale]
      exact superblock

theorem superblock_fits {s : Superblock} (is : s = d.closing ∨ s = d.olderSuperblockFor d.closing) :
    s.header.typeCode = TypeWord.containerSuperblock ∧ s.blockSize = d.blockSize ∧
      s.maxVolumes.toNat ≤ Superblock.volumeSlots ∧ s.descBlocks = descBlocks ∧
      s.descBase = descBase ∧ s.objectMap = mapAddress := by
  have code : TypeWord.code (TypeWord.containerSuperblock ||| TypeWord.ephemeralFlag)
      = TypeWord.containerSuperblock := by decide
  have slots : Superblock.volumeSlots.toUInt32.toNat ≤ Superblock.volumeSlots := by decide
  have ring := (closing_ring d).2
  rcases is with rfl | rfl
  · exact ⟨code, rfl, slots, ring, rfl, rfl⟩
  · exact ⟨code, rfl, slots, ring, rfl, rfl⟩

theorem size_of_legal {n : UInt32} (legal : n ∈ BlockSize.legal) :
    4096 ≤ n.toNat ∧ n.toNat ≤ NodeDraft.largestNode := by
  simp only [BlockSize.legal, List.mem_cons, List.not_mem_nil, or_false] at legal
  rcases legal with rfl | rfl | rfl | rfl | rfl
  all_goals exact ⟨by decide, by decide⟩

section Placed

variable (ready : d.Prepares p) (makes : d.Makes p built) (legal : d.blockSize ∈ BlockSize.legal)

include legal in
theorem size_bounds :
    4096 ≤ d.size ∧ d.size ≤ NodeDraft.largestNode ∧ d.size < Bytes.addressLimit := by
  obtain ⟨roomy, small⟩ := size_of_legal legal
  have limit : NodeDraft.largestNode < Bytes.addressLimit := by decide
  exact ⟨roomy, small, Nat.lt_of_le_of_lt small limit⟩

include legal in
theorem size_of_superblock {s : Superblock}
    (is : s = d.closing ∨ s = d.olderSuperblockFor d.closing) {bytes : Bytes}
    (made : ObjectDraft.superblock d.order d.size s = .ok bytes) : bytes.size = d.size := by
  obtain ⟨roomy, -, addressable⟩ := size_bounds legal
  obtain ⟨code, block_size, slots, -⟩ := superblock_fits is
  exact (ObjectDraft.superblock_reads roomy addressable code (block_size ▸ legal) slots made).1

include ready in
theorem ephemeral_placed {q : Pending} (mem : q ∈ p.ephemeral) : ∃ i h payload,
    i < d.ephemeral.length ∧ q.1 = ephemeralAddress i ∧
      ObjectDraft.raw d.order d.size h payload = .ok q.2 := by
  obtain ⟨⟨e, i⟩, listed, made⟩ := mem_of_mapM ready.ephemeral_eq mem
  have inside : i < d.ephemeral.length :=
    (List.getElem?_eq_some_iff.mp (List.mk_mem_zipIdx_iff_getElem?.mp listed)).1
  obtain ⟨bytes, written, same⟩ := bind_eq_ok.mp made
  cases same
  exact ⟨i, _, _, inside, rfl, written⟩

include ready in
theorem object_placed {q : Pending} (mem : q ∈ p.objects) :
    ∃ i, ∃ h : i < d.objects.length, q.1 = objectAddress i ∧
      d.buildObject d.objects[i] = .ok q.2 := by
  obtain ⟨⟨plan, i⟩, listed, made⟩ := mem_of_mapM ready.objects_eq mem
  obtain ⟨inside, plan_eq⟩ :=
    List.getElem?_eq_some_iff.mp (List.mk_mem_zipIdx_iff_getElem?.mp listed)
  obtain ⟨bytes, written, same⟩ := bind_eq_ok.mp made
  cases same
  refine ⟨i, inside, rfl, ?_⟩
  rw [plan_eq]
  exact written

def content (d : ContainerDraft) (plan : ObjectPlan) : Bytes :=
  if plan.objectType = TypeWord.volumeSuperblock then
    Bytes.ofList (d.order.bytesOf .four volumeMagic.toUInt64 ++ d.order.bytesOf .four
      (if d.volumes.contains plan.oid then d.volumes.idxOf plan.oid else 0).toUInt32.toUInt64)
  else wordBytes .little plan.xid

theorem buildObject_eq (d : ContainerDraft) (plan : ObjectPlan) : d.buildObject plan
    = ObjectDraft.raw d.order d.size (ObjectDraft.header plan.oid plan.xid plan.objectType 0)
      (d.content plan) := by
  rw [buildObject, content]
  split
  · rename_i volume
    rw [volume]
    rfl
  · rfl

include ready in
theorem snapshot_placed {q : Pending} (mem : q ∈ snapshotNodes p) : ∃ t entries,
    (d.treeDraft snapshotSizes TypeWord.snapshotTree (endOf treeBase p.tree)).build entries
        = .ok t ∧
      ¬objectBase < endOf (endOf treeBase p.tree) t ∧ p.snapshotTree = some t ∧
      q ∈ pendingNodes t := by
  unfold snapshotNodes at mem
  cases snapshots : p.snapshotTree with
  | none =>
    rw [snapshots] at mem
    exact absurd mem List.not_mem_nil
  | some t =>
    rw [snapshots] at mem
    have made := ready.snapshotTree_eq
    rw [snapshots] at made
    obtain ⟨entries, built, room⟩ := buildSnapshotTree_eq_ok made
    exact ⟨t, entries, built, room, rfl, mem⟩

include ready in
theorem chain_placed {q : Pending} (mem : q ∈ p.mapAddresses.zip p.chain) :
    (∃ i, ringAddress d.closing i = .ok q.1) ∧ ∃ index address last mappings,
      ObjectDraft.mapBlock d.order d.size d.xid index address last mappings = .ok q.2 := by
  obtain ⟨inAddresses, inChain⟩ := List.of_mem_zip mem
  obtain ⟨i, -, found⟩ := mem_of_mapM ready.mapAddresses_eq inAddresses
  obtain ⟨-, chain⟩ := checked_eq_ok.mp ready.chain_eq
  obtain ⟨⟨⟨address, mappings⟩, index⟩, -, made⟩ := mem_of_mapM chain inChain
  exact ⟨⟨_, found⟩, index, address, _, mappings, made⟩

theorem mem_olderBlocks {q : Pending} :
    q ∈ olderBlocks p ↔ ∃ blocks, p.older = some blocks ∧ (q = blocks.1 ∨ q = blocks.2) := by
  unfold olderBlocks
  cases p.older <;> simp

include ready in
theorem older_placed {q : Pending} (mem : q ∈ olderBlocks p) :
    (∃ i, ringAddress (d.olderSuperblockFor d.closing) i = .ok q.1) ∧
      ((∃ xid last mappings,
        ObjectDraft.mapBlock d.order d.size xid 0 q.1 last mappings = .ok q.2) ∨
      ObjectDraft.superblock d.order d.size (d.olderSuperblockFor d.closing) = .ok q.2) := by
  obtain ⟨blocks, older, here⟩ := mem_olderBlocks.mp mem
  obtain ⟨mapAt, superblockAt, map, superblock⟩ := buildOlder_eq_ok (ready.older_built older)
  rcases here with rfl | rfl
  · exact ⟨⟨0, mapAt⟩, .inl ⟨_, _, _, map⟩⟩
  · exact ⟨⟨1, superblockAt⟩, .inr superblock⟩

theorem mem_pendingOf {q : Pending} : q ∈ d.pendingOf p ↔ q ∈ p.ephemeral ∨ q ∈ p.objects ∨
    q ∈ pendingNodes p.tree ∨ q ∈ snapshotNodes p ∨ q = (mapAddress, p.descriptor) ∨
    q ∈ p.mapAddresses.zip p.chain ∨ q = (p.superblockAt, p.superblock) ∨ q ∈ olderBlocks p ∨
    q = (0, d.firstOf p) := by
  simp only [pendingOf, List.mem_append, List.mem_singleton, or_assoc]

include ready legal in
theorem size_of_pending {q : Pending} (mem : q ∈ d.pendingOf p) : q.2.size = d.size := by
  obtain ⟨roomy, small, addressable⟩ := size_bounds legal
  rcases mem_pendingOf.mp mem with mem | mem | mem | mem | rfl | mem | rfl | mem | rfl
  · obtain ⟨i, h, payload, -, -, made⟩ := ephemeral_placed ready mem
    exact (ObjectDraft.raw_holds addressable made).size_eq
  · obtain ⟨i, h, -, made⟩ := object_placed ready mem
    rw [buildObject_eq] at made
    exact (ObjectDraft.raw_holds addressable made).size_eq
  · obtain ⟨n, inTree, rfl⟩ := List.mem_map.mp mem
    exact TreeDraft.size_of_build (buildMappingTree_eq_ok ready.tree_eq).1 small inTree
  · obtain ⟨t, entries, made, -, -, mem⟩ := snapshot_placed ready mem
    obtain ⟨n, inTree, rfl⟩ := List.mem_map.mp mem
    exact TreeDraft.size_of_build made small inTree
  · exact (ObjectDraft.mapDescriptor_reads roomy addressable ready.descriptor_eq).1
  · obtain ⟨-, _, _, _, _, made⟩ := chain_placed ready mem
    exact ObjectDraft.size_mapBlock made
  · exact size_of_superblock legal (.inl rfl) ready.superblock_eq
  · obtain ⟨-, ⟨_, _, _, made⟩ | made⟩ := older_placed ready mem
    · exact ObjectDraft.size_mapBlock made
    · exact size_of_superblock legal (.inr rfl) made
  · obtain ⟨s, is, made⟩ := ready.first_is
    exact size_of_superblock legal is made

include makes legal in
theorem image_of_build : built.image = ⟨d.blockSize, d.blockCount, (d.pendingOf p).reverse⟩ ∧
    ∀ q ∈ d.pendingOf p, q.1.toNat < d.blockCount.toNat := by
  have same : d.size = d.blockSize.toNat := rfl
  obtain ⟨roomy, -⟩ := size_bounds legal
  have some_bytes : 0 < d.blockSize.toNat := by omega
  have sizes : ∀ q ∈ d.pendingOf p, q.2.size = d.blockSize.toNat :=
    fun q mem => size_of_pending makes.toPrepares legal mem
  obtain ⟨image_eq, inside⟩ := putAll_eq_ok some_bytes sizes makes.image_eq
  refine ⟨?_, inside⟩
  rw [image_eq, Image.blank, List.append_nil]

include makes legal in
theorem tree_placed : (endOf treeBase p.tree).toNat = 34 + p.tree.nodes.length ∧
    34 + p.tree.nodes.length ≤ 1058 ∧
    ∀ i (h : i < p.tree.nodes.length), p.tree.nodes[i].address.toNat = 34 + i := by
  obtain ⟨-, inside⟩ := image_of_build makes legal
  obtain ⟨made, room⟩ := buildMappingTree_eq_ok makes.tree_eq
  have placed := nodes_placed made (fun q mem => inside q (mem_pendingOf.mpr
    (.inr (.inr (.inl mem))))) room
  rw [show (d.treeDraft mappingSizes TypeWord.objectMap treeBase).firstAddress.toNat = 34 from
    toNat_treeBase] at placed
  exact placed

include ready in
theorem object_listed {i : Nat} (h : i < d.objects.length) :
    ∃ bytes, d.buildObject d.objects[i] = .ok bytes ∧ (objectAddress i, bytes) ∈ p.objects := by
  obtain ⟨length_eq, each⟩ := mapM_zipIdx_eq_ok ready.objects_eq
  obtain ⟨bytes, made, same⟩ := bind_eq_ok.mp (each i h (by omega))
  refine ⟨bytes, made, ?_⟩
  have pair_eq : (objectAddress i, bytes) = p.objects[i] := Except.ok.inj same
  rw [pair_eq]
  exact List.getElem_mem _

include makes legal in
theorem object_address {i : Nat} (h : i < d.objects.length) :
    (objectAddress i).toNat = 1058 + i := by
  obtain ⟨-, inside⟩ := image_of_build makes legal
  have placed : ∀ i, i < d.objects.length → (objectAddress i).toNat < d.blockCount.toNat := by
    intro i h
    obtain ⟨bytes, -, listed⟩ := object_listed makes.toPrepares h
    exact inside _ (mem_pendingOf.mpr (.inr (.inl listed)))
  rw [← toNat_objectBase]
  exact toNat_counted placed (Nat.le_of_lt h)

end Placed

theorem filled_of_build (makes : d.Makes p built) (legal : d.blockSize ∈ BlockSize.legal) :
    built.image.Filled := by
  obtain ⟨image_eq, -⟩ := image_of_build makes legal
  rw [image_eq]
  intro address bytes mem
  exact size_of_pending makes.toPrepares legal (List.mem_reverse.mp mem)

end ContainerDraft

end ObjectStore
