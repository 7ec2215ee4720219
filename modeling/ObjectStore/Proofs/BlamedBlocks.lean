import ObjectStore.Proofs.Absences
import ObjectStore.Proofs.FixedRecords
import ObjectStore.Proofs.NodesAsOf
import ObjectStore.Proofs.RecordFaults
import ObjectStore.Proofs.SnapshotWalks

/-
The block that an object map names when a record of one of its trees is damaged. A lookup names
the leaf that holds the record, and so does a listing of the snapshots where an entry leaves its
node. But the records listed are decoded by a visitor that is not told of the leaf: what they are
too short for is charged to the root of the tree.
-/
namespace ObjectStore

open Session

namespace ObjectMap

inductive LookupFault (map : ObjectMap) (target : VersionKey) (entered : List Tree.Loaded) :
    StoreError → Prop where
  | absent {top leaf : Tree.Loaded} (first : top ∈ entered.head?) (known : leaf ∈ entered)
      (is_leaf : leaf.node.isLeaf = true) (unmatched : leaf.node.locate top.node.entrySizes
        VersionKey.order target .versioned = .ok none) :
      LookupFault map target entered
        (.keyNotFound s!"{target.describe} in tree {map.treeRoot.text}")
  | torn {sizes : Option Tree.EntrySizes} {leaf : Tree.Loaded} {index : Nat} {d : DecodeError}
      (record : Tree.Listed entered sizes leaf index) (torn : leaf.node.Torn sizes index d) :
      LookupFault map target entered (d.atBlock leaf.address)
  | short {sizes : Option Tree.EntrySizes} {leaf : Tree.Loaded} {index : Nat} {d : DecodeError}
      (record : Tree.Listed entered sizes leaf index)
      (short : leaf.node.Short sizes 16 16 index d) :
      LookupFault map target entered (d.atBlock leaf.address)

inductive ListingFault (map : ObjectMap) (asks : List Tree.Ask) (nodes : List Tree.Loaded) :
    StoreError → Prop where
  | above {err : StoreError}
      (stopped : Tree.StoppedAbove map.maxDepth map.snapshotTreeRoot asks nodes err) :
      ListingFault map asks nodes err
  | torn {sizes : Option Tree.EntrySizes} {leaf : Tree.Loaded} {index : Nat} {d : DecodeError}
      (record : Tree.Listed nodes sizes leaf index) (torn : leaf.node.Torn sizes index d) :
      ListingFault map asks nodes (d.atBlock leaf.address)
  | short {sizes : Option Tree.EntrySizes} {leaf : Tree.Loaded} {index : Nat} {d : DecodeError}
      (record : Tree.Listed nodes sizes leaf index)
      (short : leaf.node.Short sizes 8 16 index d)
      (at_root : leaf.address = map.descriptor.snapshotTreeOid ↔ leaf.node.isRoot = true) :
      ListingFault map asks nodes (d.atBlock map.descriptor.snapshotTreeOid)

variable {map : ObjectMap}

theorem short_of_key {leaf : Tree.Loaded} {sizes : Option Tree.EntrySizes} {index : Nat}
    {e : ByteOrder} {key : Bytes} {d : DecodeError} (key_eq : leaf.node.key sizes index = .ok key)
    (undecoded : VersionKey.parse e key = .error d) : leaf.node.Short sizes 16 16 index d := by
  obtain ⟨short, kind⟩ := VersionKey.codec_exact.short_of_error (by decide) undecoded
  exact ⟨.inl ⟨key, key_eq, short⟩, kind⟩

/-- A search that fails in a leaf, or finds a record in it that does not decode. -/
theorem lookupFault_of_leaf {target : VersionKey} {entered : List Tree.Loaded}
    {top leaf : Tree.Loaded} {how : Tree.Match} {err : StoreError} (first : top ∈ entered.head?)
    (known : leaf ∈ entered) (is_leaf : leaf.node.isLeaf = true) (versioned : how = .versioned)
    (failed : (Tree.foundIn (Tree.Navigator.trunkOf map.treeRoot top) VersionKey.order target how
      leaf >>= map.mappingIn) = .error err) : map.LookupFault target entered err := by
  subst versioned
  have listed : ∀ index < leaf.node.keyCount,
      Tree.Listed entered top.node.entrySizes leaf index := fun index inside =>
    ⟨⟨top, first, rfl⟩, known, is_leaf, inside⟩
  obtain failed | ⟨found, ok, failed⟩ := bind_eq_error.mp failed
  · obtain ⟨unmatched, rfl⟩ | ⟨index, inside, d, rfl, fault⟩ := Tree.foundIn_eq_error failed
    · exact .absent first known is_leaf unmatched
    · obtain torn | ⟨key, key_eq, uncompared | uncompared⟩ := fault
      · exact .torn (listed index inside) torn
      · exact .short (listed index inside) (short_of_key key_eq (map_eq_error.mp uncompared))
      · exact .short (listed index inside) (short_of_key key_eq (map_eq_error.mp uncompared))
  · obtain ⟨named, located, record⟩ := Tree.foundIn_eq_ok ok
    obtain ⟨d, rfl, undecoded⟩ := mappingIn_eq_error failed
    have inside := (Tree.Node.locate_eq_some located).1
    rw [named]
    obtain undecoded | undecoded := undecoded
    · exact .short (listed _ inside) (short_of_key record.key_eq undecoded)
    · obtain ⟨short, kind⟩ := Mapping.codec_exact.short_of_error (by decide) undecoded
      exact .short (listed _ inside) ⟨.inr ⟨_, record.value_eq, short⟩, kind⟩

/-- A record that the visitor refuses is charged to the root, wherever it was found. -/
theorem keepSnapshot_refuses {key value : Bytes} {own final : List (TransactionId × Snapshot)}
    {err : StoreError}
    (rejected : (map.keepSnapshot key value).perform own = (.error err, final)) :
    ∃ d, err = d.atBlock map.descriptor.snapshotTreeOid ∧
      (map.order.read64 key 0 = .error d ∨ Snapshot.parse map.order value = .error d) := by
  unfold keepSnapshot snapshotOf at rejected
  cases xid : map.order.read64 key 0 with
  | error d =>
    rw [xid] at rejected
    cases rejected
    exact ⟨d, rfl, .inl rfl⟩
  | ok id =>
    cases stored : Snapshot.parse map.order value with
    | error d =>
      rw [xid, stored] at rejected
      cases rejected
      exact ⟨d, rfl, .inr rfl⟩
    | ok snapshot =>
      rw [xid, stored] at rejected
      cases rejected

/-- A listing fails with the walk of the snapshot tree, or has no physical tree to walk. -/
theorem snapshots_eq_error {σ : Type} {nodes : Reference → Session σ Tree.Loaded} {s : σ}
    {err : StoreError} (failed : ((map.snapshots nodes).perform s).1 = .error err) :
    (map.descriptor.snapshotTreeStorage? ≠ some .physical ∧
        ∃ feature, err = .unsupported feature) ∨
      (((map.navigator nodes).walkWith map.snapshotTreeRoot map.keepSnapshot).perform (s, [])).1
        = .error err := by
  cases has_tree : map.descriptor.hasSnapshotTree with
  | false =>
    rw [snapshots, has_tree] at failed
    cases failed
  | true =>
    by_cases physical : map.descriptor.snapshotTreeStorage? = some .physical
    · rw [map.perform_snapshots nodes has_tree physical] at failed
      refine .inr ?_
      rcases run : ((map.navigator nodes).walkWith map.snapshotTreeRoot map.keepSnapshot).perform
        (s, []) with ⟨fault | n, rest⟩
      · rw [run] at failed
        cases failed
        rfl
      · rw [run] at failed
        cases failed
    · rw [snapshots, has_tree] at failed
      simp only [Bool.not_true, Bool.false_eq_true, ↓reduceIte, ne_eq, physical,
        not_false_eq_true] at failed
      cases failed
      exact .inl ⟨physical, _, rfl⟩

theorem listingFault_of_walked {image : Bytes} {size : BlockSize} {e : ByteOrder}
    {asks : List Tree.Ask} {nodes : List Tree.Loaded} {records : List (Bytes × Bytes)}
    {final : List (TransactionId × Snapshot)} {err : StoreError}
    (walked : Tree.Walked map.maxDepth map.keepSnapshot map.snapshotTreeRoot [] asks nodes records
      (.error err) final)
    (descends : Tree.Descends (fun oid n => HandedOut image size e (.physical oid) n)
      map.descriptor.snapshotTreeOid nodes) : map.ListingFault asks nodes err := by
  obtain above | ⟨trunk, leaf, index, listed, stopped⟩ := walked.halts
  · exact .above above
  · cases stopped with
    | unreadable torn => exact .torn listed torn
    | refused record rejected =>
      obtain ⟨top, first, -⟩ := listed.sizes_eq
      have in_place := (descends top first).1.in_place _ rfl
      have at_root := walked.root_only first leaf listed.known
      rw [in_place] at at_root
      obtain ⟨d, rfl, undecoded | undecoded⟩ := keepSnapshot_refuses rejected
      · obtain ⟨short, kind⟩ := Codec.word64_exact.short_of_error (by decide) undecoded
        exact .short listed ⟨.inl ⟨_, record.key_eq, short⟩, kind⟩ at_root
      · obtain ⟨short, kind⟩ := Snapshot.codec_exact.short_of_error (by decide) undecoded
        exact .short listed ⟨.inr ⟨_, record.value_eq, short⟩, kind⟩ at_root

end ObjectMap

namespace Resolver

variable {image : Bytes} {size : BlockSize} {e : ByteOrder}
  {source : BlockSource (Except StoreError)} {r : Resolver}

/-- A lookup that fails at a record names the block of its leaf, at every height of the tree. A
listing of the snapshots names the block of the leaf where an entry leaves its node, and the block
of the root where a record is too short; the two are one block just where the root is the leaf. -/
theorem blamed_block (opened : BlockSource.ofBytes image size = .ok source)
    (reads : r.Reads source e) {memory : Memory} (reached : Reachable source e memory)
    (map : ObjectMap) :
    (∀ oid xid err, ((map.resolve r.readNode oid xid).perform memory).1 = .error err →
      ∃ later asks entered result,
        ((map.navigator r.readNode).watched.find VersionKey.order map.treeRoot ⟨oid, xid⟩
          .versioned).perform (memory, []) = (result, (later, asks)) ∧
        Tree.Searched map.maxDepth VersionKey.order map.treeRoot ⟨oid, xid⟩ .versioned asks
          entered result ∧
        Tree.Descends (fun oid n => HandedOut image size e (.physical oid) n)
          map.descriptor.treeOid entered ∧
        (result = .error err ∧ (∀ n ∈ entered, n.node.isLeaf = false) ∨
          map.LookupFault ⟨oid, xid⟩ entered err)) ∧
    ∀ err, ((map.snapshots r.readNode).perform memory).1 = .error err →
      (map.descriptor.snapshotTreeStorage? ≠ some .physical ∧
        ∃ feature, err = .unsupported feature) ∨
      ∃ later asks nodes records final,
        ((map.navigator r.readNode).watched.walkWith map.snapshotTreeRoot map.keepSnapshot).perform
          ((memory, []), []) = (.error err, ((later, asks), final)) ∧
        Tree.Walked map.maxDepth map.keepSnapshot map.snapshotTreeRoot [] asks nodes records
          (.error err) final ∧
        Tree.Descends (fun oid n => HandedOut image size e (.physical oid) n)
          map.descriptor.snapshotTreeOid nodes ∧
        map.ListingFault asks nodes err := by
  have loads : ∀ base reference, Ensures (Memory.Sound image size e)
      ((map.navigator r.readNode).source reference) fun n =>
        ∀ oid, reference = (Reference.physical base).sibling oid →
          HandedOut image size e (.physical oid) n := by
    intro base reference
    refine (ensures_readNode reads opened reference).weaken ?_
    rintro n out oid rfl
    exact out
  have sound := reached.sound opened
  constructor
  · intro oid xid err failed
    have tree_eq : map.treeRoot.sibling map.descriptor.treeOid = map.treeRoot := rfl
    obtain ⟨later, asks, entered, result, run, watched, searched, descends⟩ :=
      Tree.Navigator.find_descends (loads map.descriptor.treeOid) tree_eq VersionKey.order
        ⟨oid, xid⟩ .versioned sound
    refine ⟨later, asks, entered, result, watched, searched, descends, ?_⟩
    rw [ObjectMap.resolve_after run] at failed
    obtain ⟨top, first, leaf, known, is_leaf, rightmost, rfl⟩ | ⟨no_leaf, _, rfl⟩ := searched.ends
    · exact .inr (ObjectMap.lookupFault_of_leaf first known is_leaf rfl failed)
    · cases failed
      exact .inl ⟨rfl, no_leaf⟩
  · intro err failed
    obtain unsupported | walk_failed := ObjectMap.snapshots_eq_error failed
    · exact .inl unsupported
    · have tree_eq : map.snapshotTreeRoot.sibling map.descriptor.snapshotTreeOid
          = map.snapshotTreeRoot := rfl
      obtain ⟨later, asks, nodes, records, result, final, run, watched, walked, descends⟩ :=
        Tree.Navigator.walk_descends (loads map.descriptor.snapshotTreeOid) tree_eq
          map.keepSnapshot sound []
      have run : ((map.navigator r.readNode).walkWith map.snapshotTreeRoot
        map.keepSnapshot).perform (memory, []) = (result, (later, final)) := run
      rw [run] at walk_failed
      cases walk_failed
      exact .inr ⟨later, asks, nodes, records, final, watched, walked, descends,
        ObjectMap.listingFault_of_walked walked descends⟩

end Resolver

section Listing

variable {contents : Bytes} {size : BlockSize} {source : BlockSource (Except StoreError)}

/-- A built node that lies on the block it names. -/
theorem NodeDraft.Reads.nodeAt {d : NodeDraft} {bytes : Bytes} {n : Tree.Node} {image : Image}
    (reads : d.Reads bytes n) (shown : image.Shown contents size source)
    (listed : image.block? d.object.oid = some bytes)
    (inside : d.object.oid.toNat < image.blockCount.toNat) (nonzero : d.object.oid ≠ 0)
    (physical : d.object.storage? = some .physical)
    (coded : d.object.typeCode = TypeWord.tree ∨ d.object.typeCode = TypeWord.treeNode) :
    NodeAt contents size d.order source d.object.oid n := by
  have roomy : ObjectHeader.size ≤ size.toNat :=
    Nat.le_trans (by decide) (ContainerDraft.size_of_legal shown.legal).1
  refine .of_read shown.opened roomy shown.addressable nonzero
    (shown.blocks_eq _ _ listed inside).2 reads.verified reads.parsed ?_ ?_ ?_
  · rw [reads.object_eq]
  · rw [reads.object_eq]
    exact physical
  · rw [reads.object_eq]
    exact coded

theorem ObjectMap.openAt_of_read {address : BlockAddress} {e : ByteOrder} {b : Bytes}
    {d : MapDescriptor} {map : ObjectMap} (nonzero : address ≠ 0)
    (stored : source.readBlock address = .ok b) (verified : Object.verifies e b = true)
    (parsed : MapDescriptor.parse e b = .ok d) (described : ofDescriptor address e d = .ok map) :
    openAt source address e = .ok map := by
  rw [openAt, if_neg nonzero]
  refine bind_eq_ok.mpr ⟨b, stored, ?_⟩
  refine bind_eq_ok.mpr ⟨(), Object.verify_eq_ok.mpr verified, ?_⟩
  refine bind_eq_ok.mpr ⟨d, decodedAt_eq_ok.mpr parsed, ?_⟩
  rw [described]
  rfl

/-- The root of a snapshot tree, whose only pointer leads to block 2. -/
def listingRoot : NodeDraft :=
  { NodeDraft.blank .little 4096 with
    object := ⟨0, 1, 10, TypeWord.tree ||| TypeWord.physicalFlag, TypeWord.snapshotTree⟩
    level := 1
    root := true
    entries := [(wordBytes .little 5, wordBytes .little 2)] }

/-- The leaf below it, whose only record lacks all but four bytes of its value. -/
def shortLeaf : NodeDraft :=
  { NodeDraft.blank .little 4096 with
    object := ⟨0, 2, 10, TypeWord.treeNode ||| TypeWord.physicalFlag, TypeWord.snapshotTree⟩
    entries := [(wordBytes .little 5, Bytes.zeros 4)] }

def shortFault : DecodeError := .insufficientData 8 8 0

def listingImage (root leaf descriptor : Bytes) : Image :=
  ⟨4096, 5, [(1, root), (2, leaf), (3, descriptor)]⟩

structure ShortListing (contents : Bytes) (size : BlockSize)
    (source : BlockSource (Except StoreError)) (map : ObjectMap) (top leaf : Tree.Node) : Prop where
  opened : BlockSource.ofBytes contents size = .ok source
  opens : ObjectMap.openAt source 3 .little = .ok map
  order_eq : map.order = .little
  depth_eq : map.maxDepth = Tree.standardDepth
  has_root : map.snapshotTreeRoot = .physical 1
  physical : map.descriptor.snapshotTreeStorage? = some .physical
  at_root : NodeAt contents size .little source 1 top
  at_leaf : NodeAt contents size .little source 2 leaf
  root_reads : listingRoot.Reads top.bytes top
  leaf_reads : shortLeaf.Reads leaf.bytes leaf

theorem listingImage_reads : ∃ descriptor contents size source map top leaf,
    listingRoot.build = .ok top.bytes ∧ shortLeaf.build = .ok leaf.bytes ∧
      ObjectDraft.mapDescriptor .little 4096 3 10 4 (some ⟨1, 1, 5⟩) = .ok descriptor ∧
      (listingImage top.bytes leaf.bytes descriptor).toSource = .ok source ∧
      ShortListing contents size source map top leaf := by
  obtain ⟨top, root_built, root_reads⟩ := NodeDraft.builds (d := listingRoot) UInt16.zero_and
    (by decide) (fun _ _ _ => rfl) (by decide) fun _ => ⟨_, .inr ⟨rfl, rfl⟩⟩
  obtain ⟨leaf, leaf_built, leaf_reads⟩ := NodeDraft.builds (d := shortLeaf) UInt16.zero_and
    (by decide) (fun _ _ _ => rfl) (by decide) nofun
  obtain ⟨descriptor, made⟩ : ∃ b,
      ObjectDraft.mapDescriptor .little 4096 3 10 4 (some ⟨1, 1, 5⟩) = .ok b :=
    ObjectDraft.mapDescriptor_succeeds (by decide) (by decide)
  obtain ⟨map_size, verified, -, d, parsed, -, ⟨root_eq, physical⟩, described⟩ :=
    ObjectDraft.mapDescriptor_reads (by decide) (by decide) made
  have filled : (listingImage top.bytes leaf.bytes descriptor).Filled := by
    intro at_block held mem
    obtain same | mem := List.mem_cons.mp mem
    · cases same
      exact root_reads.size_eq
    · obtain same | mem := List.mem_cons.mp mem
      · cases same
        exact leaf_reads.size_eq
      · cases List.mem_singleton.mp mem
        exact map_size
  obtain ⟨source, to_source⟩ := Image.toSource_succeeds filled
    (by change (4096 : UInt32) ∈ _; decide) (by change 5 * 4096 < _; decide)
  obtain ⟨contents, size, shown⟩ := Image.shown_of_toSource filled to_source
  obtain ⟨-, read_map⟩ := shown.blocks_eq 3 descriptor rfl (by change 3 < 5; decide)
  have opens := ObjectMap.openAt_of_read (by decide) read_map verified parsed described
  refine ⟨descriptor, contents, size, source, _, top, leaf, root_built, leaf_built, made, to_source,
    shown.opened, opens, rfl, rfl, ?_, physical, ?_, ?_, root_reads, leaf_reads⟩
  · exact congrArg Reference.physical root_eq
  · exact root_reads.nodeAt shown rfl (by change 1 < 5; decide) (by decide) (by decide)
      (.inl (by decide))
  · exact leaf_reads.nodeAt shown rfl (by change 2 < 5; decide) (by decide) (by decide)
      (.inr (by decide))

namespace ShortListing

variable {map : ObjectMap} {top leaf : Tree.Node}
  (listing : ShortListing contents size source map top leaf)

include listing

/-- The record is refused in the name of block 1. -/
theorem keep_refuses (own : List (TransactionId × Snapshot)) :
    (map.keepSnapshot (wordBytes .little 5) (Bytes.zeros 4)).perform own
      = (.error (shortFault.atBlock 1), own) := by
  have short : Snapshot.parse .little (Bytes.zeros 4) = .error shortFault := by decide
  rw [ObjectMap.keepSnapshot, ObjectMap.snapshotOf, listing.order_eq, read64_wordBytes, short,
    listing.has_root]
  rfl

theorem child_eq : top.child top.entrySizes 0 = .ok 2 := by
  refine Tree.Node.child_of_value (by rw [listing.root_reads.level_eq]; decide) ?_
  rw [listing.root_reads.order_eq]
  exact listing.root_reads.value_eq _ trivial 0 (by decide)

theorem top_level : top.level.toNat = 1 := by
  rw [listing.root_reads.level_eq]
  rfl

theorem leaf_level : leaf.level.toNat = 0 := by
  rw [listing.leaf_reads.level_eq]
  rfl

theorem yields_leaf {σ : Type} {I : σ × List (TransactionId × Snapshot) → Prop}
    (nav : Tree.Navigator (Session (σ × List (TransactionId × Snapshot)))) (trunk : Tree.Trunk)
    (path : List BlockAddress) :
    Yields I (nav.walkBelow trunk (fun key value => onRight (map.keepSnapshot key value)) 0 path
        ⟨2, leaf⟩ ⟨[1], 0⟩)
      (.error (shortFault.atBlock 1)) := by
  have record : Yields I (Tree.Navigator.recordAt trunk ⟨2, leaf⟩ 0)
      (.ok (wordBytes .little 5, Bytes.zeros 4)) :=
    (yields_decodedAt _ (listing.leaf_reads.key_eq trunk.sizes trivial 0 (by decide))).bind
      ((yields_decodedAt _ (listing.leaf_reads.value_eq trunk.sizes trivial 0 (by decide))).bind
        (yields_pure _))
  have refused : Yields I (onRight (map.keepSnapshot (wordBytes .little 5) (Bytes.zeros 4)))
      (.error (shortFault.atBlock 1)) := by
    intro s start
    rw [perform_onRight, listing.keep_refuses]
    exact ⟨start, rfl⟩
  have new : (2 : BlockAddress) ∉ [(1 : BlockAddress)] := by decide
  rw [Tree.Navigator.walkBelow, Tree.Navigator.enter_new new, pure_bind,
    show leaf.keyCount = 1 from listing.leaf_reads.keyCount_eq]
  exact (record.bind refused.bind_error).bind_error

/-- The walk comes from block 1 to the leaf on block 2 and fails there. -/
theorem yields_walk {r : Resolver} (reads : r.Reads source .little) :
    Yields (fun s : Memory × List (TransactionId × Snapshot) => s.1.Sound contents size .little)
      ((map.navigator r.readNode).walkWith map.snapshotTreeRoot map.keepSnapshot)
      (.error (shortFault.atBlock 1)) := by
  have answers : ∀ {address node}, NodeAt contents size .little source address node →
      Yields (fun s : Memory × List (TransactionId × Snapshot) => s.1.Sound contents size .little)
        ((map.navigator r.readNode).beside.source (.physical address)) (.ok ⟨address, node⟩) :=
    fun at_block s sound => Resolver.yields_readNodeWith reads r.lookupMapping at_block s.1 sound
  have shallow : top.level ≤ map.maxDepth := by
    rw [listing.root_reads.level_eq, listing.depth_eq]
    decide
  have rooted := Tree.Navigator.yields_rootNode (answers listing.at_root)
    listing.root_reads.root_eq shallow
  have new : (2 : BlockAddress) ∉ [(1 : BlockAddress)] := by decide
  have sound : Tree.childFault? (.physical 2) ⟨1, top⟩ ⟨2, leaf⟩ = none :=
    Tree.no_childFault (show (Tree.Loaded.mk 1 top).node.level.toNat = 0 + 1 from
      listing.top_level) listing.leaf_level listing.leaf_reads.root_eq
  rw [listing.has_root, Tree.Navigator.walkWith, Tree.Navigator.walk]
  refine rooted.bind (Yields.bind_error ?_)
  rw [listing.top_level, Tree.Navigator.walkBelow, Tree.Navigator.enter_new List.not_mem_nil,
    pure_bind, show top.keyCount = 1 from listing.root_reads.keyCount_eq]
  refine Yields.bind_error (Yields.bind ?_ (listing.yields_leaf _ _ _))
  exact Tree.Navigator.yields_step listing.child_eq (answers listing.at_leaf) new sound

theorem listing_fails {r : Resolver} (reads : r.Reads source .little) {memory : Memory}
    (sound : memory.Sound contents size .little) :
    ((map.snapshots r.readNode).perform memory).1
      = .error (shortFault.atBlock 1) := by
  have has_tree : map.descriptor.hasSnapshotTree = true := by
    rw [MapDescriptor.hasSnapshotTree, Reference.physical.inj listing.has_root]
    decide
  obtain ⟨-, walked⟩ := listing.yields_walk reads (memory, []) sound
  rw [map.perform_snapshots r.readNode has_tree listing.physical]
  dsimp only
  rw [walked]
  rfl

theorem leaf_is_short : leaf.isLeaf = true ∧
    leaf.Short top.entrySizes 8 16 0 shortFault := by
  have value := listing.leaf_reads.value_eq top.entrySizes trivial 0 (by decide)
  exact ⟨Tree.Node.leaf_of_level listing.leaf_level,
    .inr ⟨_, value, by change (Bytes.zeros 4).size < 16; decide⟩, _, _, _, rfl⟩

end ShortListing

def listingResolver (source : BlockSource (Except StoreError)) (map : ObjectMap) : Resolver :=
  (Resolver.ofSource source.remembered .little .standard).withObjectMap map

/-- On an image with a short record below a root, the listing names the root. -/
theorem Resolver.blamed_block_short_listing : ∃ contents size source map top leaf asks nodes,
    ShortListing contents size source map top leaf ∧
      ((map.snapshots (listingResolver source map).readNode).perform (.fresh .standard)).1
        = .error (shortFault.atBlock 1) ∧
      map.ListingFault asks nodes
        (shortFault.atBlock 1) := by
  obtain ⟨_, contents, size, source, map, top, leaf, -, -, -, -, listing⟩ := listingImage_reads
  have fresh : Reachable source .little (.fresh .standard) := .fresh _
  have failed := listing.listing_fails (r := listingResolver source map) ⟨rfl, rfl⟩
    (fresh.sound listing.opened)
  obtain ⟨other, -⟩ | ⟨_, asks, nodes, _, _, -, -, -, fault⟩ :=
    (Resolver.blamed_block listing.opened (r := listingResolver source map) ⟨rfl, rfl⟩ fresh
      map).2 _ failed
  · exact absurd listing.physical other
  · exact ⟨contents, size, source, map, top, leaf, asks, nodes, listing, failed, fault⟩

/-- A record too short in the leaf on block 2, to which a sound root leads, and an error that does
not name that block. -/
theorem short_snapshot_names_root : ∃ root leaf descriptor source map n,
    listingRoot.build = .ok root ∧ shortLeaf.build = .ok leaf ∧
      ObjectDraft.mapDescriptor .little 4096 3 10 4 (some ⟨1, 1, 5⟩) = .ok descriptor ∧
      (listingImage root leaf descriptor).toSource = .ok source ∧
      ObjectMap.openAt source 3 .little = .ok map ∧
      source.readBlock 2 = .ok leaf ∧ Tree.Node.parse .little leaf = .ok n ∧
      n.isLeaf = true ∧ (∃ sizes, n.Short sizes 8 16 0 shortFault) ∧
      ((map.snapshots (listingResolver source map).readNode).perform (.fresh .standard)).1
        = .error (shortFault.atBlock 1) ∧
      ∀ detail, ((map.snapshots (listingResolver source map).readNode).perform
        (.fresh .standard)).1 ≠ .error (.truncated 2 detail) := by
  obtain ⟨descriptor, contents, size, source, map, top, n, root_built, leaf_built, made, to_source,
    listing⟩ := listingImage_reads
  obtain ⟨is_leaf, short⟩ := listing.leaf_is_short
  have fresh : Reachable source .little (.fresh .standard) := .fresh _
  have failed := listing.listing_fails (r := listingResolver source map) ⟨rfl, rfl⟩
    (fresh.sound listing.opened)
  refine ⟨top.bytes, n.bytes, descriptor, source, map, n, root_built, leaf_built, made, to_source,
    listing.opens, listing.at_leaf.stored, listing.at_leaf.parsed, is_leaf, ⟨_, short⟩, failed,
    fun detail => ?_⟩
  rw [failed]
  intro same
  cases same

end Listing

end ObjectStore
