import ObjectStore.Proofs.OpenedContainer
import ObjectStore.Proofs.Search
import ObjectStore.Proofs.Versions

/-
Lookups in the object map of a built container: each finds the newest of the versions that the
container was built with.
-/
namespace ObjectStore

open Session ObjectStore.Tree

namespace ContainerDraft

variable {d : ContainerDraft} {p : ContainerParts} {built : ContainerImage} {contents : Bytes}
  {size : BlockSize} {source : BlockSource (Except StoreError)}

def sorted (d : ContainerDraft) : List (VersionKey × Mapping) :=
  d.versions.mergeSort fun a b => VersionKey.compare a.1 b.1 != .gt

def keyed (d : ContainerDraft) : List (Entry × VersionKey) :=
  d.sorted.map fun v => ((v.1.encode d.order, v.2.encode d.order), v.1)

theorem entries_keyed (d : ContainerDraft) :
    Entry.ofVersions d.order d.versions = d.keyed.map Prod.fst := by
  rw [Entry.ofVersions, keyed, List.map_map, sorted]
  rfl

theorem mem_sorted {v : VersionKey × Mapping} : v ∈ d.sorted ↔ v ∈ d.versions :=
  List.mem_mergeSort

theorem keyed_ascending (d : ContainerDraft) :
    versionKeys.Ascending (d.keyed.map Prod.snd) := by
  have trans : ∀ a b c : VersionKey × Mapping, (VersionKey.compare a.1 b.1 != .gt) = true →
      (VersionKey.compare b.1 c.1 != .gt) = true → (VersionKey.compare a.1 c.1 != .gt) = true := by
    intro a b c ab bc
    simp only [bne_iff_ne, Ne, Ordering.ne_gt_iff_isLE, VersionKey.isLE_compare,
      UInt64.lt_iff_toNat_lt, UInt64.le_iff_toNat_le, ← UInt64.toNat_inj] at ab bc ⊢
    omega
  have total : ∀ a b : VersionKey × Mapping, (VersionKey.compare a.1 b.1 != .gt ||
      VersionKey.compare b.1 a.1 != .gt) = true := by
    intro a b
    simp only [Bool.or_eq_true, bne_iff_ne, Ne, Ordering.ne_gt_iff_isLE, VersionKey.isLE_compare,
      UInt64.lt_iff_toNat_lt, UInt64.le_iff_toNat_le, ← UInt64.toNat_inj]
    omega
  have ordered := List.pairwise_mergeSort trans total d.versions
  rw [keyed, List.map_map, KeyView.Ascending, List.pairwise_map]
  refine ordered.imp fun {a b} le => ?_
  exact Ordering.ne_gt_iff_isLE.mp (bne_iff_ne.mp le)

theorem decodes_keyed {pair : Entry × VersionKey} (mem : pair ∈ d.keyed) :
    VersionKey.parse d.order pair.1.1 = .ok pair.2 := by
  obtain ⟨v, -, rfl⟩ := List.mem_map.mp mem
  exact VersionKey.parse_encode d.order v.1

theorem tree_words : ∀ root : Bool,
    TypeWord.storage? ((if root then TypeWord.tree else TypeWord.treeNode) |||
      StorageClass.physical.typeBits) = some .physical ∧
    TypeWord.code ((if root then TypeWord.tree else TypeWord.treeNode) |||
      StorageClass.physical.typeBits) = if root then TypeWord.tree else TypeWord.treeNode := by
  decide

def mappingDraft (d : ContainerDraft) : TreeDraft :=
  d.treeDraft mappingSizes TypeWord.objectMap treeBase

structure Newest (d : ContainerDraft) (oid : ObjectId) (xid : TransactionId)
    (entry : VersionKey × Mapping) : Prop where
  mem : entry ∈ d.versions
  oid_eq : entry.1.oid = oid
  xid_le : entry.1.xid ≤ xid
  newest : ∀ other ∈ d.versions, other.1.oid = oid → other.1.xid ≤ xid →
    other.1.xid ≤ entry.1.xid

/-- Of the entries of a container without repeated keys one is newest at most. -/
theorem Newest.unique (distinct : (d.versions.map Prod.fst).Nodup) {oid : ObjectId}
    {xid : TransactionId} {a b : VersionKey × Mapping} (ha : d.Newest oid xid a)
    (hb : d.Newest oid xid b) : a = b := by
  have xid_eq : a.1.xid = b.1.xid :=
    UInt64.le_antisymm (hb.newest a ha.mem ha.oid_eq ha.xid_le)
      (ha.newest b hb.mem hb.oid_eq hb.xid_le)
  have oid_eq : a.1.oid = b.1.oid := ha.oid_eq.trans hb.oid_eq.symm
  have key_eq : a.1 = b.1 := by
    rw [show a.1 = ⟨a.1.oid, a.1.xid⟩ from rfl, oid_eq, xid_eq]
  have value_eq := lookup_of_mem distinct ha.mem
  rw [key_eq, lookup_of_mem distinct hb.mem] at value_eq
  exact Prod.ext key_eq (Option.some.inj value_eq).symm

section Listed

variable {records : List (Record VersionKey)} {oid : ObjectId} {xid : TransactionId}
  (listing : records.map (fun r => (((r.found.key, r.found.value) : Entry), r.key)) = d.keyed)
  (ascending : versionKeys.Ascending (records.map Record.key))

include listing in
theorem version_of_record {r : Record VersionKey} (mem : r ∈ records) : ∃ v ∈ d.versions,
    r.key = v.1 ∧ r.found.key = v.1.encode d.order ∧ r.found.value = v.2.encode d.order := by
  have inKeyed : (((r.found.key, r.found.value) : Entry), r.key) ∈ d.keyed := by
    rw [← listing]
    exact List.mem_map_of_mem mem
  obtain ⟨v, inSorted, same⟩ := List.mem_map.mp inKeyed
  have entry_eq := congrArg Prod.fst same
  exact ⟨v, mem_sorted.mp inSorted, (congrArg Prod.snd same).symm,
    (congrArg Prod.fst entry_eq).symm, (congrArg Prod.snd entry_eq).symm⟩

include listing in
theorem record_of_version {v : VersionKey × Mapping} (mem : v ∈ d.versions) :
    ∃ r ∈ records, r.key = v.1 := by
  have inKeyed : (((v.1.encode d.order, v.2.encode d.order) : Entry), v.1) ∈ d.keyed :=
    List.mem_map.mpr ⟨v, mem_sorted.mpr mem, rfl⟩
  rw [← listing] at inKeyed
  obtain ⟨r, inRecords, same⟩ := List.mem_map.mp inKeyed
  exact ⟨r, inRecords, congrArg Prod.snd same⟩

include listing ascending in
/-- What a scan of the records finds is the newest version. -/
theorem newest_of_scan {r : Record VersionKey}
    (outcome : versionKeys.scan records ⟨oid, xid⟩ .versioned = some r) : ∃ v,
    d.Newest oid xid v ∧ r.found.key = v.1.encode d.order ∧
      r.found.value = v.2.encode d.order := by
  have newest := KeyView.newest_of_scan ascending outcome
  obtain ⟨v, mem, key_eq, stored_key, stored_value⟩ := version_of_record listing newest.mem
  have oid_eq := newest.oid_eq
  have xid_le := newest.xid_le
  rw [key_eq] at oid_eq xid_le
  refine ⟨v, ⟨mem, oid_eq, xid_le, ?_⟩, stored_key, stored_value⟩
  intro other inVersions other_oid other_xid
  obtain ⟨r', inRecords, same⟩ := record_of_version listing inVersions
  have le := newest.newest r' inRecords (by rw [same]; exact other_oid)
    (by rw [same]; exact other_xid)
  rw [same, key_eq] at le
  exact le

include listing ascending in
/-- If a scan of the records finds nothing, there are only versions that are too new. -/
theorem newer_of_scan (outcome : versionKeys.scan records ⟨oid, xid⟩ .versioned = none) :
    ∀ v ∈ d.versions, v.1.oid = oid → xid < v.1.xid := by
  intro v mem oid_eq
  obtain ⟨r, inRecords, same⟩ := record_of_version listing mem
  have above := KeyView.none_of_scan ascending outcome r inRecords (by rw [same]; exact oid_eq)
  rw [same] at above
  exact above

end Listed

section Opened

variable (makes : d.Makes p built) (legal : d.blockSize ∈ BlockSize.legal)
  (found : Found d p contents size source)

include makes legal found in
theorem nodeAt {n : BuiltNode} (mem : n ∈ p.tree.nodes) {planned : PlannedNode} {node : Node}
    (sound : TreeDraft.Sound d.mappingDraft planned n node) :
    NodeAt contents size d.order source n.address node := by
  obtain ⟨-, -, addresses⟩ := tree_placed makes legal
  obtain ⟨roomy, -, -⟩ := size_bounds legal
  have header_size : ObjectHeader.size = 32 := rfl
  have size_eq := found.size_same
  have object_eq := sound.object_eq
  refine .of_read found.opened (by omega) found.addressable ?_ (found.node mem) sound.verified
    sound.parsed ?_ ?_ ?_
  · intro zero
    obtain ⟨i, h, same⟩ := List.getElem_of_mem mem
    have place := addresses i h
    rw [same, zero] at place
    have none : (0 : BlockAddress).toNat = 0 := rfl
    omega
  · rw [object_eq, sound.address_eq]
    rfl
  · rw [object_eq]
    exact (tree_words planned.root).1
  · rw [object_eq]
    cases root : planned.root with
    | true => exact .inl (tree_words true).2
    | false => exact .inr (tree_words false).2

structure Bound (d : ContainerDraft) (p : ContainerParts)
    (source : BlockSource (Except StoreError)) (r : Resolver) : Prop where
  reads : r.Reads source d.order
  has_map : ∃ descriptor maxDepth, r.objectMap = some ⟨mapAddress, d.order, descriptor, maxDepth⟩ ∧
    descriptor.treeOid = p.tree.root.address ∧ standardDepth ≤ maxDepth ∧
    ObjectMap.ofDescriptor mapAddress d.order descriptor
      = .ok ⟨mapAddress, d.order, descriptor, standardDepth⟩

include makes legal found in
/-- The mapping tree is found with all versions, by any resolver that reads the container. -/
theorem mapping_grown {r : Resolver} (reads : r.Reads source d.order) {maxDepth : UInt16}
    (deep : standardDepth ≤ maxDepth) :
    ∃ top records blocks, GrownTree (Navigator.Answers (Memory.Sound contents size d.order)
        ⟨r.readNodeWith Resolver.noMap, maxDepth⟩) versionKeys (.physical p.tree.root.address)
        maxDepth top records blocks ∧
      records.map (fun r => (((r.found.key, r.found.value) : Entry), r.key)) = d.keyed := by
  obtain ⟨-, tree_room, -⟩ := tree_placed makes legal
  obtain ⟨-, small, -⟩ := size_bounds legal
  obtain ⟨built, -⟩ := buildMappingTree_eq_ok makes.tree_eq
  rw [entries_keyed] at built
  have few : p.tree.nodes.length ≤ TreeDraft.nodeLimit := by
    have limit : TreeDraft.nodeLimit = 65536 := rfl
    omega
  refine TreeDraft.build_grown built small few (fun _ mem => decodes_keyed mem)
    (keyed_ascending d) ?_ ?_ deep
  · have root_mem : p.tree.root ∈ p.tree.nodes :=
      List.mem_append_right _ (List.mem_singleton_self _)
    obtain ⟨i, h, same⟩ := List.getElem_of_mem root_mem
    obtain ⟨address_eq, oid_eq⟩ := TreeDraft.address_of_build built h
    rw [same] at address_eq oid_eq
    rw [Reference.sibling, oid_eq, address_eq]
    rfl
  · intro n mem planned node sound
    have same : n.oid = n.address := by
      rw [sound.oid_eq, sound.address_eq]
      rfl
    rw [Reference.sibling, same]
    exact Resolver.yields_readNodeWith reads _ (nodeAt makes legal found mem sound)

include makes legal found in
theorem yields_lookup {r : Resolver} (bound : Bound d p source r) {oid : ObjectId}
    (free : reservedIds ≤ oid) (xid : TransactionId) :
    (∃ entry, d.Newest oid xid entry ∧ Yields (Memory.Sound contents size d.order)
        (r.lookupMapping oid xid) (.ok entry.2)) ∨
      ((∀ entry ∈ d.versions, entry.1.oid = oid → xid < entry.1.xid) ∧
        ∃ text, Yields (Memory.Sound contents size d.order) (r.lookupMapping oid xid)
          (.error (.keyNotFound text))) := by
  obtain ⟨descriptor, maxDepth, has_map, tree_oid, deep, -⟩ := bound.has_map
  obtain ⟨top, records, blocks, tree, listing⟩ :=
    mapping_grown makes legal found bound.reads deep
  have scanned := Navigator.find_scans tree ⟨oid, xid⟩ .versioned
  have map_eq : r.lookupMapping oid xid = (Resolver.rejectReserved oid >>= fun _ =>
      ObjectMap.resolve ⟨mapAddress, d.order, descriptor, maxDepth⟩
        (r.readNodeWith Resolver.noMap) oid xid) := by
    rw [Resolver.lookupMapping, has_map]
  rw [← tree_oid] at scanned
  rw [map_eq]
  cases outcome : versionKeys.scan records ⟨oid, xid⟩ .versioned with
  | some rec =>
    left
    obtain ⟨v, newest, stored_key, stored_value⟩ := newest_of_scan listing tree.ascending outcome
    rw [outcome] at scanned
    have key_parsed : VersionKey.parse d.order rec.found.key = .ok v.1 := by
      rw [stored_key]
      exact VersionKey.parse_encode d.order v.1
    have value_parsed : Mapping.parse d.order rec.found.value = .ok v.2 := by
      rw [stored_value]
      exact Mapping.parse_encode d.order v.2
    refine ⟨v, newest, (Resolver.yields_rejectReserved free).bind (scanned.bind ?_)⟩
    exact (yields_decodedAt _ key_parsed).bind (yields_decodedAt _ value_parsed)
  | none =>
    right
    rw [outcome, answer] at scanned
    exact ⟨newer_of_scan listing tree.ascending outcome, _,
      (Resolver.yields_rejectReserved free).bind (Yields.bind_error scanned)⟩

end Opened

end ContainerDraft

end ObjectStore
