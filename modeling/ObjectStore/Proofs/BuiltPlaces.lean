import ObjectStore.Proofs.BuiltContainer

/-
The numbers of the blocks on which the parts of a built container are put. No number comes twice,
for each slot in which a checkpoint may start, so each block holds the part that was put there
and the others are zero.

The older checkpoint has the two slots in front of the newer one, which are the slots 14 and 15
behind it.
-/
namespace ObjectStore

theorem map_eq_range' {l : List α} {f : α → Nat} {start : Nat}
    (each : ∀ i (h : i < l.length), f l[i] = start + i) :
    l.map f = List.range' start l.length := by
  apply List.ext_getElem
  · rw [List.length_map, List.length_range']
  · intro i left right
    rw [List.getElem_map, List.getElem_range', Nat.one_mul]
    exact each i (by rwa [List.length_map] at left)

namespace ContainerDraft

variable {d : ContainerDraft} {p : ContainerParts} {built : ContainerImage}

/-- The number of the block in a slot of the ring, counted from where the checkpoint starts. -/
def ringNumber (d : ContainerDraft) (k : Nat) : Nat := 1 + (d.descStart.toNat + k) % 16

theorem ringNumber_inj {j k : Nat} (hj : j < 16) (hk : k < 16)
    (same : d.ringNumber j = d.ringNumber k) : j = k := by
  unfold ringNumber at same
  omega

theorem older_descIndex (d : ContainerDraft) :
    (d.olderSuperblockFor d.closing).descIndex.toNat = (d.descStart.toNat + 14) % 16 := by
  have width : descBlocks.toNat = 16 := rfl
  have two : (2 : UInt32).toNat = 2 := rfl
  change ((d.descStart + descBlocks - 2) % descBlocks).toNat = _
  rw [UInt32.toNat_mod, UInt32.toNat_sub, UInt32.toNat_add, width, two]
  omega

def takenSlots (d : ContainerDraft) (p : ContainerParts) : List Nat :=
  List.range (d.mapGroups.length + 1) ++ (if p.older.isSome then [14, 15] else [])

/-- The numbers of the blocks that something is put on. -/
def numbers (d : ContainerDraft) (p : ContainerParts) : List Nat :=
  List.range' 17 d.ephemeral.length ++ List.range' 1058 d.objects.length ++
    List.range' 34 p.tree.nodes.length ++
    List.range' (34 + p.tree.nodes.length) (snapshotNodes p).length ++ [33] ++
    (d.takenSlots p).map d.ringNumber ++ [0]

section Made

variable (makes : d.Makes p built) (legal : d.blockSize ∈ BlockSize.legal)

theorem Prepares.older_of (ready : d.Prepares p) {blocks : Pending × Pending}
    (some_older : p.older = some blocks) : d.older = true := by
  have older_eq := ready.older_eq
  split at older_eq
  · assumption
  · rw [some_older] at older_eq
    cases older_eq

/-- The older checkpoint is of the transaction before. -/
theorem Prepares.older_xid_lt (ready : d.Prepares p) : d.xid - 1 < d.xid := by
  have second := UInt64.lt_iff_toNat_lt.mp (UInt64.not_le.mp ready.second)
  have one : (1 : UInt64).toNat = 1 := rfl
  have small := d.xid.toNat_lt
  rw [UInt64.lt_iff_toNat_lt, UInt64.toNat_sub]
  omega

theorem takenSlots_nodup (ready : d.Prepares p) :
    (d.takenSlots p).Nodup ∧ ∀ k ∈ d.takenSlots p, k < 16 := by
  have room := ready.ring_room
  have width : descBlocks.toNat = 16 := rfl
  cases older : p.older with
  | none =>
    simp only [takenSlots, older, Option.isSome_none, Bool.false_eq_true, if_false,
      List.append_nil, List.mem_range]
    exact ⟨List.nodup_range, fun k lt => by omega⟩
  | some blocks =>
    rw [if_pos (ready.older_of older)] at room
    simp only [takenSlots, older, Option.isSome_some, if_true, List.mem_append, List.mem_range,
      List.mem_cons, List.not_mem_nil, or_false]
    refine ⟨List.nodup_append.mpr ⟨List.nodup_range, by decide, ?_⟩, fun k here => by omega⟩
    intro k below j behind
    simp only [List.mem_range, List.mem_cons, List.not_mem_nil, or_false] at below behind
    omega

theorem ring_nodup (ready : d.Prepares p) : ((d.takenSlots p).map d.ringNumber).Nodup ∧
    ∀ n ∈ (d.takenSlots p).map d.ringNumber, 1 ≤ n ∧ n ≤ 16 := by
  obtain ⟨distinct, small⟩ := takenSlots_nodup ready
  constructor
  · refine List.pairwise_map.mpr (distinct.imp_of_mem fun hj hk apart same => ?_)
    exact apart (ringNumber_inj (small _ hj) (small _ hk) same)
  · intro n mem
    obtain ⟨k, -, rfl⟩ := List.mem_map.mp mem
    unfold ringNumber
    omega

include makes legal in
theorem snapshot_numbers : (snapshotNodes p).map (·.1.toNat)
      = List.range' (34 + p.tree.nodes.length) (snapshotNodes p).length ∧
    34 + p.tree.nodes.length + (snapshotNodes p).length ≤ 1058 := by
  obtain ⟨tree_end, tree_room, -⟩ := tree_placed makes legal
  obtain ⟨-, inside⟩ := image_of_build makes legal
  cases snapshots : p.snapshotTree with
  | none =>
    have none_there : snapshotNodes p = [] := by rw [snapshotNodes, snapshots]; rfl
    rw [none_there]
    exact ⟨rfl, tree_room⟩
  | some t =>
    have nodes_eq : snapshotNodes p = pendingNodes t := by rw [snapshotNodes, snapshots]; rfl
    have made := makes.snapshotTree_eq
    rw [snapshots] at made
    obtain ⟨entries, made, room⟩ := buildSnapshotTree_eq_ok made
    have start : (d.treeDraft snapshotSizes TypeWord.snapshotTree
      (endOf treeBase p.tree)).firstAddress.toNat = 34 + p.tree.nodes.length := tree_end
    have held : ∀ q ∈ pendingNodes t, q.1.toNat < d.blockCount.toNat := fun q mem =>
      inside q (mem_pendingOf.mpr (.inr (.inr (.inr (.inl (nodes_eq ▸ mem))))))
    obtain ⟨-, last, addresses⟩ := nodes_placed made held room
    rw [start] at last addresses
    have length_eq : (pendingNodes t).length = t.nodes.length := List.length_map _
    rw [nodes_eq]
    refine ⟨map_eq_range' fun i h => ?_, by omega⟩
    simp only [pendingNodes, List.getElem_map]
    exact addresses i (by omega)

theorem ephemeral_numbers (ready : d.Prepares p) :
    p.ephemeral.map (·.1.toNat) = List.range' 17 d.ephemeral.length := by
  obtain ⟨length_eq, each⟩ := mapM_zipIdx_eq_ok ready.ephemeral_eq
  rw [← length_eq]
  refine map_eq_range' fun i h => ?_
  obtain ⟨bytes, -, same⟩ := bind_eq_ok.mp (each i (by omega) h)
  rw [← Except.ok.inj same]
  have most := ready.few_ephemeral
  exact toNat_ephemeralAddress (by omega)

include makes legal in
theorem object_numbers : p.objects.map (·.1.toNat) = List.range' 1058 d.objects.length := by
  obtain ⟨length_eq, each⟩ := mapM_zipIdx_eq_ok makes.objects_eq
  rw [← length_eq]
  refine map_eq_range' fun i h => ?_
  obtain ⟨bytes, -, same⟩ := bind_eq_ok.mp (each i (by omega) h)
  rw [← Except.ok.inj same]
  exact object_address makes legal (by omega)

include makes legal in
theorem node_numbers :
    (pendingNodes p.tree).map (·.1.toNat) = List.range' 34 p.tree.nodes.length := by
  obtain ⟨-, -, addresses⟩ := tree_placed makes legal
  have length_eq : (pendingNodes p.tree).length = p.tree.nodes.length := List.length_map _
  rw [← length_eq]
  refine map_eq_range' fun i h => ?_
  simp only [pendingNodes, List.getElem_map]
  exact addresses i (by omega)

theorem toNat_slot {k : Nat} (small : k ≤ 16) : k.toUInt32.toNat = k :=
  Nat.mod_eq_of_lt (by omega)

section Ring

variable (ready : d.Prepares p)

include ready

theorem few_groups : d.mapGroups.length + 1 ≤ 16 := by
  have room := ready.ring_room
  have width : descBlocks.toNat = 16 := rfl
  omega

theorem length_mapAddresses : p.mapAddresses.length = d.mapGroups.length := by
  rw [(mapM_eq_ok ready.mapAddresses_eq).1, List.length_range]

theorem length_chain : p.chain.length = d.mapGroups.length := by
  obtain ⟨lengths, made⟩ := checked_eq_ok.mp ready.chain_eq
  rw [(mapM_zipIdx_eq_ok made).1, List.length_zip, length_mapAddresses ready, Nat.min_self]

theorem mapAddress_place {k : Nat} (h : k < p.mapAddresses.length) :
    d.closing.checkpointBlock k.toUInt32 = some p.mapAddresses[k] ∧
      p.mapAddresses[k].toNat = d.ringNumber k := by
  have few := few_groups ready
  have length_eq := length_mapAddresses ready
  obtain ⟨base, ring⟩ := closing_ring d
  have found := (mapM_eq_ok ready.mapAddresses_eq).2 k (by rw [List.length_range]; omega) h
  rw [List.getElem_range] at found
  obtain ⟨placed, number⟩ := ringAddress_eq_ok base ring found
  rw [toNat_slot (by omega)] at number
  exact ⟨placed, number⟩

theorem superblockAt_place : d.closing.checkpointBlock d.mapGroups.length.toUInt32
      = some p.superblockAt ∧ p.superblockAt.toNat = d.ringNumber d.mapGroups.length := by
  have few := few_groups ready
  obtain ⟨base, ring⟩ := closing_ring d
  obtain ⟨placed, number⟩ := ringAddress_eq_ok base ring ready.superblockAt_eq
  rw [toNat_slot (by omega)] at number
  exact ⟨placed, number⟩

theorem older_places {blocks : Pending × Pending} (some_older : p.older = some blocks) :
    ((d.olderSuperblockFor d.closing).checkpointBlock 0 = some blocks.1.1 ∧
        blocks.1.1.toNat = d.ringNumber 14) ∧
      (d.olderSuperblockFor d.closing).checkpointBlock 1 = some blocks.2.1 ∧
        blocks.2.1.toNat = d.ringNumber 15 := by
  obtain ⟨mapAt, superblockAt, -, -⟩ := buildOlder_eq_ok (ready.older_built some_older)
  obtain ⟨-, -, -, ring, base, -⟩ := superblock_fits (d := d) (.inr rfl)
  have start := older_descIndex d
  have none_on : (0 : UInt32).toNat = 0 := rfl
  have one_on : (1 : UInt32).toNat = 1 := rfl
  obtain ⟨placed, number⟩ := ringAddress_eq_ok base ring mapAt
  obtain ⟨placed', number'⟩ := ringAddress_eq_ok base ring superblockAt
  rw [start, none_on] at number
  rw [start, one_on] at number'
  refine ⟨⟨placed, ?_⟩, placed', ?_⟩
  · rw [number, ringNumber]
    omega
  · rw [number', ringNumber]
    omega

theorem ring_numbers : (p.mapAddresses.zip p.chain ++ [(p.superblockAt, p.superblock)] ++
      olderBlocks p).map (·.1.toNat) = (d.takenSlots p).map d.ringNumber := by
  have length_eq := length_mapAddresses ready
  have chain_length := length_chain ready
  have addresses : (p.mapAddresses.zip p.chain).map (·.1.toNat)
      = (List.range d.mapGroups.length).map d.ringNumber := by
    apply List.ext_getElem
    · simp [length_eq, chain_length]
    · intro k left right
      rw [List.length_map, List.length_zip] at left
      simp only [List.getElem_map, List.getElem_zip, List.getElem_range]
      exact (mapAddress_place ready (by omega)).2
  rw [takenSlots, List.range_succ, List.map_append, List.map_append, List.map_append,
    List.map_append, addresses, List.map_singleton, List.map_singleton,
    (superblockAt_place ready).2]
  congr 1
  cases older : p.older with
  | none =>
    rw [olderBlocks, older]
    rfl
  | some blocks =>
    obtain ⟨⟨-, number⟩, -, number'⟩ := older_places ready older
    simp only [olderBlocks, older, Option.isSome_some, if_true, List.map_cons, List.map_nil,
      number, number']

end Ring

include makes legal in
theorem numbers_of_build : (d.pendingOf p).map (·.1.toNat) = d.numbers p := by
  have grouped : d.pendingOf p = p.ephemeral ++ p.objects ++ pendingNodes p.tree ++
      snapshotNodes p ++ [(mapAddress, p.descriptor)] ++ (p.mapAddresses.zip p.chain ++
        [(p.superblockAt, p.superblock)] ++ olderBlocks p) ++ [(0, d.firstOf p)] := by
    simp only [pendingOf, List.append_assoc]
  have map_at := toNat_mapAddress
  rw [grouped, List.map_append, List.map_append, ring_numbers makes.toPrepares, List.map_append,
    List.map_append, List.map_append, List.map_append, ephemeral_numbers makes.toPrepares,
    object_numbers makes legal, node_numbers makes legal, (snapshot_numbers makes legal).1,
    List.map_singleton, List.map_singleton, map_at]
  rfl

include makes legal in
theorem numbers_nodup : (d.numbers p).Nodup := by
  have few := makes.few_ephemeral
  have width : dataBlocks.toNat = 16 := rfl
  obtain ⟨-, tree_room, -⟩ := tree_placed makes legal
  obtain ⟨-, snapshot_room⟩ := snapshot_numbers makes legal
  obtain ⟨ring, ring_inside⟩ := ring_nodup makes.toPrepares
  simp only [numbers, List.nodup_append, List.mem_append, List.mem_range'_1, List.mem_singleton]
  refine ⟨⟨⟨⟨⟨⟨List.nodup_range', List.nodup_range', ?_⟩, List.nodup_range', ?_⟩,
    List.nodup_range', ?_⟩, by decide, ?_⟩, ring, ?_⟩, by decide, ?_⟩
  case refine_5 =>
    intro a left b right
    have inside := ring_inside b right
    omega
  case refine_6 =>
    intro a left b right
    rcases left with elsewhere | in_ring
    · omega
    · have inside := ring_inside a in_ring
      omega
  all_goals
    intro a left b right
    omega

include makes legal in
/-- No two parts are put on one block. -/
theorem places_nodup : ((d.pendingOf p).map Prod.fst).Nodup := by
  have distinct := numbers_nodup makes legal
  rw [← numbers_of_build makes legal] at distinct
  refine List.pairwise_map.mpr ((List.pairwise_map.mp distinct).imp ?_)
  exact fun apart same => apart (congrArg UInt64.toNat same)

include makes legal in
theorem placed_nodup : (built.image.placed.map Prod.fst).Nodup := by
  obtain ⟨image_eq, -⟩ := image_of_build makes legal
  rw [image_eq, List.map_reverse]
  exact (List.reverse_perm _).nodup_iff.mpr (places_nodup makes legal)

include makes legal in
theorem block_of_pending {q : Pending} (mem : q ∈ d.pendingOf p) :
    built.image.block? q.1 = some q.2 ∧ q.1.toNat < built.image.blockCount.toNat := by
  have distinct := placed_nodup makes legal
  obtain ⟨image_eq, inside⟩ := image_of_build makes legal
  rw [image_eq] at distinct ⊢
  exact ⟨lookup_of_mem distinct (List.mem_reverse.mpr mem), inside _ mem⟩

include makes legal in
theorem no_block_of_build {address : BlockAddress}
    (free : address ∉ (d.pendingOf p).map Prod.fst) : built.image.block? address = none := by
  obtain ⟨image_eq, -⟩ := image_of_build makes legal
  rw [image_eq]
  refine List.lookup_eq_none_iff.mpr fun q mem => ?_
  simp only [bne_iff_ne, ne_eq]
  rintro rfl
  exact free (List.mem_map_of_mem (List.mem_reverse.mp mem))

include makes legal in
/-- In the ring lie the map blocks and superblocks of the checkpoints, and nothing else. -/
theorem ring_part {q : Pending} (mem : q ∈ d.pendingOf p) (low : 1 ≤ q.1.toNat)
    (high : q.1.toNat ≤ 16) : q ∈ p.mapAddresses.zip p.chain ∨
      q = (p.superblockAt, p.superblock) ∨ q ∈ olderBlocks p := by
  have map_at := toNat_mapAddress
  have behind : ∀ {l : List Pending} {start n : Nat}, l.map (·.1.toNat) = List.range' start n →
      q ∈ l → start ≤ q.1.toNat := by
    intro l start n numbers_eq mem
    have here := List.mem_map_of_mem (f := fun q : Pending => q.1.toNat) mem
    rw [numbers_eq, List.mem_range'_1] at here
    exact here.1
  rcases mem_pendingOf.mp mem with mem | mem | mem | mem | rfl | mem | rfl | mem | rfl
  · have := behind (ephemeral_numbers makes.toPrepares) mem
    omega
  · have := behind (object_numbers makes legal) mem
    omega
  · have := behind (node_numbers makes legal) mem
    omega
  · have := behind (snapshot_numbers makes legal).1 mem
    omega
  · simp only at high
    omega
  · exact .inl mem
  · exact .inr (.inl rfl)
  · exact .inr (.inr mem)
  · simp at low

end Made

structure Found (d : ContainerDraft) (p : ContainerParts) (contents : Bytes) (size : BlockSize)
    (source : BlockSource (Except StoreError)) : Prop where
  opened : BlockSource.ofBytes contents size = .ok source
  size_eq : size.bytes = d.blockSize
  addressable : contents.size < Bytes.addressLimit
  holds : ∀ q ∈ d.pendingOf p, source.readBlock q.1 = .ok q.2
  blanks : ∀ address : BlockAddress, address ∉ (d.pendingOf p).map Prod.fst →
    address.toNat < d.blockCount.toNat → source.readBlock address = .ok (Bytes.zeros d.size)

theorem found_of_build {d : ContainerDraft} {built : ContainerImage}
    {source : BlockSource (Except StoreError)} (run : d.build = .ok built)
    (shown : built.image.toSource = .ok source) : ∃ p contents size,
      d.Makes p built ∧ d.blockSize ∈ BlockSize.legal ∧ Found d p contents size source := by
  obtain ⟨p, makes⟩ := build_eq_ok.mp run
  have size_eq := blockSize_putAll makes.image_eq
  have legal : d.blockSize ∈ BlockSize.legal := by
    have legal := (Image.toSource_eq_ok shown).1
    rw [size_eq] at legal
    exact legal
  obtain ⟨contents, size, shows⟩ := Image.shown_of_toSource (filled_of_build makes legal) shown
  have size_same : size.bytes = d.blockSize := by
    rw [shows.size_eq, size_eq]
    rfl
  have count_eq : built.image.blockCount = d.blockCount := by
    rw [(image_of_build makes legal).1]
  refine ⟨p, contents, size, makes, legal, shows.opened, size_same, shows.addressable, ?_, ?_⟩
  · intro q mem
    obtain ⟨stored, inside⟩ := block_of_pending makes legal mem
    exact (shows.blocks_eq q.1 q.2 stored inside).2
  · intro address free inside
    have blank := shows.blanks_eq address (no_block_of_build makes legal free)
      (by rw [count_eq]; exact inside)
    rw [BlockSource.readBlock_eq shows.opened shows.addressable
      (by rw [shows.counted, count_eq]; exact inside), blank, BlockSize.toNat, size_same]
    rfl

section Read

variable {contents : Bytes} {size : BlockSize} {source : BlockSource (Except StoreError)}
  (found : Found d p contents size source)

include found

theorem Found.size_same : size.toNat = d.size := by
  rw [BlockSize.toNat, found.size_eq]
  rfl

theorem Found.header_fits (legal : d.blockSize ∈ BlockSize.legal) :
    ObjectHeader.size ≤ size.toNat := by
  have header_size : ObjectHeader.size = 32 := rfl
  have size_eq := found.size_same
  obtain ⟨roomy, -, -⟩ := size_bounds legal
  omega

theorem Found.first : source.readBlock 0 = .ok (d.firstOf p) :=
  found.holds (0, d.firstOf p) (mem_pendingOf.mpr (by simp))

theorem Found.map : source.readBlock mapAddress = .ok p.descriptor :=
  found.holds (mapAddress, p.descriptor) (mem_pendingOf.mpr (by simp))

theorem Found.node {n : BuiltNode} (mem : n ∈ p.tree.nodes) :
    source.readBlock n.address = .ok n.bytes :=
  found.holds (n.address, n.bytes)
    (mem_pendingOf.mpr (.inr (.inr (.inl (List.mem_map_of_mem mem)))))

theorem Found.object {q : Pending} (mem : q ∈ p.objects) : source.readBlock q.1 = .ok q.2 :=
  found.holds q (mem_pendingOf.mpr (.inr (.inl mem)))

end Read

end ContainerDraft

end ObjectStore
