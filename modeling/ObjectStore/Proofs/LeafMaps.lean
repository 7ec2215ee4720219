import ObjectStore.Proofs.CachedNodes
import ObjectStore.Proofs.NodeFormat
import ObjectStore.Proofs.RoundTrip

/-
Containers whose object map is a tree of one leaf, read step by step. A lookup reads that leaf
and leaves nothing else in memory; what a reference then finds at the place it is led to depends
on whether a node is remembered for its first block.
-/
namespace ObjectStore

open Session ObjectStore.Tree

namespace Tree.Navigator

variable {σ τ : Type} {nav : Navigator (Session σ)}

/-- A search in a tree of one leaf reads that leaf and does nothing else. -/
theorem after_find_leaf {root : Reference} {top : Loaded} {s s' : σ}
    (asked : (nav.source root).perform s = (.ok top, s')) (leaf : top.node.level = 0)
    (order : KeyOrder τ) (target : τ) (how : Match) :
    ((nav.find order root target how).perform s).2 = s' := by
  have below : Ensures (fun t => t = s') (nav.findBelow (trunkOf root top) order target how
      top.node.level.toNat [top.address] true top) fun _ => True := by
    rw [leaf]
    apply (ensures_locateIn _ _ _ _ _).bind
    intro index _
    exact (ensures_recordAt _ _ _).bind fun _ _ => ensures_pure trivial
  rw [find, rootNode, bind_assoc, bind_of_ok asked]
  refine (Ensures.bind (I := fun t => t = s') (P := fun here => here = top)
    (Q := fun _ => True) ?_ ?_ s' rfl).1
  · exact ensures_checked fun _ => ensures_checked fun _ => ensures_pure rfl
  · rintro here rfl
    exact below

end Tree.Navigator

namespace Resolver

variable {source : BlockSource (Except StoreError)} {r : Resolver}

theorem after_lookupMapping_leaf {map : ObjectMap} (bound : r.objectMap = some map)
    {oid : ObjectId} (free : reservedIds ≤ oid) (xid : TransactionId) {top : Loaded}
    {s s' : Memory} (asked : (r.readNodeWith noMap map.treeRoot).perform s = (.ok top, s'))
    (leaf : top.node.level = 0) : ((r.lookupMapping oid xid).perform s).2 = s' := by
  have passes : rejectReserved oid = pure () := by
    rw [rejectReserved, isReserved, if_neg]
    simpa using free
  have after : ((map.resolve (r.readNodeWith noMap) oid xid).perform s).2 = s' := by
    have searched : (((map.navigator (r.readNodeWith noMap)).find VersionKey.order map.treeRoot
        ⟨oid, xid⟩ .versioned).perform s).2 = s' :=
      Navigator.after_find_leaf asked leaf VersionKey.order ⟨oid, xid⟩ .versioned
    rw [ObjectMap.resolve, perform_bind]
    rcases run : ((map.navigator (r.readNodeWith noMap)).find VersionKey.order map.treeRoot
      ⟨oid, xid⟩ .versioned).perform s with ⟨e | found, t⟩
    · rw [run] at searched
      exact searched
    · rw [run] at searched
      rw [← show t = s' from searched]
      refine (Ensures.bind (I := fun m => m = t) (Q := fun _ => True) (ensures_decodedAt _ _) ?_
        t rfl).1
      intro _ _
      exact (ensures_decodedAt _ _).weaken fun _ _ => trivial
  rw [lookupMapping, passes, pure_bind, bound]
  exact after

/-- A node that is not remembered is handed out as it was read, and kept. -/
theorem perform_readNodeAt_new (source_eq : r.source = source.remembered) {reference : Reference}
    {p : Placement} {b : Bytes} {node : Node} (read : source.answer p.access = .ok b)
    (intact : node.Intact r.order b) (identified : identityFault? reference node.object = none)
    {s : Memory} (miss : (s.cache.get p.address).1 = none) :
    (r.readNodeAt reference p).perform s = (.ok ⟨p.address, node⟩,
      ⟨(s.cache.get p.address).2.insert p.address node, p.access :: s.accesses⟩) := by
  rw [perform_readNodeAt_miss miss, perform_loadNode_intact source_eq read intact, identityOf,
    identified]
  rfl

theorem perform_readNodeAt_kept {reference : Reference} {p : Placement} {node : Node}
    (identified : identityFault? reference node.object = none) {s : Memory}
    (hit : (s.cache.get p.address).1 = some node) :
    (r.readNodeAt reference p).perform s
      = (.ok ⟨p.address, node⟩, { s with cache := (s.cache.get p.address).2 }) := by
  rw [perform_readNodeAt_hit hit, identityOf, identified]
  rfl

theorem readNodeWith_physical (lookup : Lookup) {address : BlockAddress} (nonzero : address ≠ 0) :
    r.readNodeWith lookup (.physical address) = r.readNodeAt (.physical address) ⟨address, 1⟩ := by
  have placed : r.place lookup (.physical address) = pure ⟨address, 1⟩ := if_neg nonzero
  rw [readNodeWith_eq, placed, pure_bind]

/-- Behind a lookup that succeeds, a version that may be read is read from where it lies. -/
theorem perform_place_mapped {oid : ObjectId} {xid : TransactionId} {mapping : Mapping}
    {s s' : Memory} (looked : (r.lookupMapping oid xid).perform s = (.ok mapping, s'))
    (kept : mapping.isDeleted = false) (plain : mapping.isEncrypted = false)
    (headed : mapping.hasNoHeader = false) {p : Placement}
    (placed : r.placed mapping.address mapping.size = pure p) :
    (r.place r.lookupMapping (.virtual oid xid)).perform s = (.ok p, s') := by
  refine (bind_of_ok looked).trans ?_
  rw [kept, plain, headed, placed]
  rfl

/-- A version that the object map, a tree whose one node is the leaf `top`, leads to a place. -/
structure Leads (contents : Bytes) (size : BlockSize) (source : BlockSource (Except StoreError))
    (r : Resolver) (base : BlockAddress) (top : Node) (oid : ObjectId) (xid : TransactionId)
    (p : Placement) : Prop where
  reads : r.Reads source r.order
  at_root : NodeAt contents size r.order source base top
  place : ∀ s s', s.Sound contents size r.order →
    (r.readNodeWith noMap (.physical base)).perform s = (.ok ⟨base, top⟩, s') →
      (r.place r.lookupMapping (.virtual oid xid)).perform s = (.ok p, s')

namespace Leads

variable {contents : Bytes} {size : BlockSize} {base : BlockAddress} {top : Node}
  {oid : ObjectId} {xid : TransactionId} {p : Placement}

theorem perform_top_new (leads : Leads contents size source r base top oid xid p) {s : Memory}
    (miss : (s.cache.get base).1 = none) :
    (r.readNodeWith noMap (.physical base)).perform s = (.ok ⟨base, top⟩,
      ⟨(s.cache.get base).2.insert base top, .block base :: s.accesses⟩) := by
  have at_root := leads.at_root
  rw [readNodeWith_physical noMap at_root.nonzero]
  exact perform_readNodeAt_new (p := ⟨base, 1⟩) leads.reads.source_eq at_root.stored
    ⟨at_root.verified, at_root.parsed, at_root.coded⟩ at_root.identified miss

theorem perform_top_kept (leads : Leads contents size source r base top oid xid p) {s : Memory}
    (hit : (s.cache.get base).1 = some top) :
    (r.readNodeWith noMap (.physical base)).perform s
      = (.ok ⟨base, top⟩, { s with cache := (s.cache.get base).2 }) := by
  rw [readNodeWith_physical noMap leads.at_root.nonzero]
  exact perform_readNodeAt_kept (p := ⟨base, 1⟩) leads.at_root.identified hit

/-- Without remembered nodes the leaf is read for every version anew. -/
theorem perform_bare (leads : Leads contents size source r base top oid xid p) {s : Memory}
    (bare : s.cache.shards = #[]) : ∃ t : Memory, t.cache.shards = #[] ∧
      t.accesses = .block base :: s.accesses ∧
      (r.readNode (.virtual oid xid)).perform s
        = (r.readNodeAt (.virtual oid xid) p).perform t := by
  have missed := Cache.get_bare bare base
  have asked := leads.perform_top_new (congrArg Prod.fst missed)
  rw [missed] at asked
  have sound : s.Sound contents size r.order := Cache.all_bare bare
  exact ⟨_, Cache.insert_bare bare base top, rfl, bind_of_ok (leads.place s _ sound asked)⟩

theorem perform_bare_intact (leads : Leads contents size source r base top oid xid p) {b : Bytes}
    {node : Node} (read : source.answer p.access = .ok b) (intact : node.Intact r.order b)
    (identified : identityFault? (.virtual oid xid) node.object = none) {s : Memory}
    (bare : s.cache.shards = #[]) : ∃ t : Memory,
      (r.readNode (.virtual oid xid)).perform s = (.ok ⟨p.address, node⟩, t) ∧
      t.cache.shards = #[] ∧ t.accesses = p.access :: .block base :: s.accesses := by
  obtain ⟨t, still, accesses_eq, step⟩ := leads.perform_bare bare
  have missed := Cache.get_bare still p.address
  have loaded := perform_readNodeAt_new leads.reads.source_eq read intact identified
    (congrArg Prod.fst missed)
  rw [missed, accesses_eq] at loaded
  exact ⟨_, step.trans loaded, Cache.insert_bare still _ _, rfl⟩

theorem perform_bare_refused (leads : Leads contents size source r base top oid xid p)
    {err : StoreError} (read : source.answer p.access = .error err) {s : Memory}
    (bare : s.cache.shards = #[]) :
    ((r.readNode (.virtual oid xid)).perform s).1 = .error err := by
  obtain ⟨t, still, -, step⟩ := leads.perform_bare bare
  have fetched := perform_readPlaced leads.reads.source_eq p t
  rw [read] at fetched
  have loaded : (r.loadNode (.virtual oid xid) p).perform t = (.error err, t.note p.access) :=
    bind_of_error fetched
  rw [step, perform_readNodeAt_bare _ _ still, loaded]

/-- A memory with room for two nodes then holds the leaf and what it has led to. -/
theorem perform_remembering (leads : Leads contents size source r base top oid xid p)
    (apart : p.address ≠ base) {b : Bytes} {node : Node} (read : source.answer p.access = .ok b)
    (intact : node.Intact r.order b)
    (identified : identityFault? (.virtual oid xid) node.object = none) {s : Memory}
    (sound : s.Sound contents size r.order) (room : s.cache.Room 2)
    (fresh : ∀ address, (s.cache.get address).1 = none) : ∃ t : Memory,
      (r.readNode (.virtual oid xid)).perform s = (.ok ⟨p.address, node⟩, t) ∧
      (t.cache.get base).1 = some top ∧ (t.cache.get p.address).1 = some node := by
  have asked := leads.perform_top_new (fresh base)
  have looked := Cache.room_get room base
  have again := Cache.room_get (Cache.room_insert looked base top) p.address
  have missed : (((s.cache.get base).2.insert base top).get p.address).1 = none := by
    simp [Cache.get_insert looked.less, apart.symm, fresh]
  refine ⟨_, (bind_of_ok (leads.place s _ sound asked)).trans
    (perform_readNodeAt_new leads.reads.source_eq read intact identified missed), ?_, ?_⟩
  · simp [Cache.get_insert again, Cache.get_insert looked.less, apart, fresh]
  · simp [Cache.get_insert again, missed]

/-- A remembered node is handed out for whatever leads to its first block. -/
theorem perform_remembered (leads : Leads contents size source r base top oid xid p)
    {node : Node} (identified : identityFault? (.virtual oid xid) node.object = none)
    {s : Memory} (sound : s.Sound contents size r.order) (known : (s.cache.get base).1 = some top)
    (hit : (s.cache.get p.address).1 = some node) :
    ((r.readNode (.virtual oid xid)).perform s).1 = .ok ⟨p.address, node⟩ := by
  have placed := leads.place s _ sound (leads.perform_top_kept known)
  have still : ((s.cache.get base).2.get p.address).1 = some node := by
    simp [hit]
  have kept := perform_readNodeAt_kept (r := r) identified
    (s := { s with cache := (s.cache.get base).2 }) still
  exact congrArg Prod.fst ((bind_of_ok placed).trans kept)

end Leads

end Resolver

def emptyFields (flags : UInt16) : UInt16 × UInt16 × UInt32 × Extent × Extent × Extent × Extent :=
  (flags, 0, 0, ⟨0, 0⟩, ⟨0, 0⟩, ⟨0, 0⟩, ⟨0, 0⟩)

def emptyLeaf (flags : UInt16) (object : ObjectHeader) : NodeHeader :=
  ⟨object, flags, 0, 0, ⟨0, 0⟩, ⟨0, 0⟩, ⟨0, 0⟩, ⟨0, 0⟩⟩

/-- Behind an object header this word reads as the fields of a leaf without entries. -/
structure SpellsLeaf (word : UInt64) (flags : UInt16) : Prop where
  encoded : NodeHeader.fields.encode .little (emptyFields flags)
    = wordBytes .little word ++ Bytes.zeros 16
  is_leaf : (flags &&& NodeHeader.leafFlag != 0) = true

theorem spells_leaf : SpellsLeaf 2 NodeHeader.leafFlag := by
  constructor <;> decide +kernel

theorem spells_root : SpellsLeaf 3 (NodeHeader.rootFlag ||| NodeHeader.leafFlag) := by
  constructor <;> decide +kernel

theorem parse_emptyLeaf {e : ByteOrder} {b : Bytes} {flags : UInt16} {object : ObjectHeader}
    (header : NodeHeader.parse e b = .ok (emptyLeaf flags object))
    (is_leaf : (flags &&& NodeHeader.leafFlag != 0) = true)
    (roomy : NodeHeader.size + Footer.size ≤ b.size) :
    ∃ node : Node, Node.parse e b = .ok node ∧ node.header = emptyLeaf flags object := by
  obtain ⟨room, stored⟩ := Node.parseHeader_eq_ok.mp header
  have node_size : NodeHeader.size = 56 := rfl
  have footer_size : Footer.size = 40 := rfl
  have start : Node.keyStartIn (emptyLeaf flags object) = 56 := rfl
  have enough : 56 ≤ Node.valueEndIn (emptyLeaf flags object) b.size := by
    unfold Node.valueEndIn
    split <;> omega
  have fits : (NodeHeader.stored e b 0).Fits b.size := by
    rw [← stored]
    constructor
    case header_room => exact room
    case leaf_iff_level => exact iff_of_true is_leaf rfl
    case footer_room => exact fun _ => enough
    case table_room => exact enough
    case slots_room => exact Nat.le_of_eq (Nat.zero_mul _)
    case free_room => exact enough
  obtain ⟨node, parsed⟩ := (Node.parses_iff e b).mpr fits
  exact ⟨node, parsed, (Node.parse_eq_ok.mp parsed).2.header_eq.trans stored.symm⟩

/-- An object whose payload starts with such a word passes for a leaf without entries. -/
theorem leaf_of_raw {h : ObjectHeader} {size : Nat} {b : Bytes} {word : UInt64} {flags : UInt16}
    (spells : SpellsLeaf word flags) (roomy : NodeHeader.size + Footer.size ≤ size)
    (addressable : size < Bytes.addressLimit)
    (made : ObjectDraft.raw .little size h (wordBytes .little word) = .ok b) :
    ∃ node : Node, ∃ sum, Node.parse .little b = .ok node ∧
      node.header = emptyLeaf flags { h with checksum := sum } := by
  have holds := ObjectDraft.raw_holds addressable made
  have size_eq := holds.size_eq
  have payload := ObjectDraft.raw_payload addressable made
  have node_size : NodeHeader.size = 56 := rfl
  have header_size : ObjectHeader.size = 32 := rfl
  have footer_size : Footer.size = 40 := rfl
  have content : ∀ i, ObjectHeader.size + i < b.size → b.getPadded (ObjectHeader.size + i)
      = if i < (wordBytes .little word).size then (wordBytes .little word).getPadded i else 0 := by
    intro i inside
    have behind : b.getPadded (ObjectHeader.size + i) = (b.drop ObjectHeader.size).getPadded i := by
      rw [Bytes.drop, Bytes.getPadded_extract inside]
    rw [behind, payload, Bytes.getPadded_append, Bytes.getPadded_zeros]
  have fields : NodeHeader.fields.read .little b ObjectHeader.size = .ok (emptyFields flags) := by
    have width : NodeHeader.fields.size = 24 := rfl
    refine NodeHeader.fields_lawful.read_at (v := emptyFields flags) (by decide) (by omega)
      (by omega) ?_
    intro i lt
    rw [content i (by omega), spells.encoded, Bytes.getPadded_append, Bytes.getPadded_zeros]
  obtain ⟨sum, read⟩ := holds.read
  obtain ⟨object, object_read, rest⟩ := bind_eq_ok.mp read
  obtain ⟨_, -, same⟩ := bind_eq_ok.mp rest
  have object_eq : object = { h with checksum := sum } := congrArg Prod.fst (Except.ok.inj same)
  have header : NodeHeader.parse .little b = .ok (emptyLeaf flags object) := by
    have whole : NodeHeader.codec.size = NodeHeader.size := rfl
    have both : (ObjectHeader.codec.seq NodeHeader.fields).read .little b 0
        = .ok (object, emptyFields flags) :=
      bind_eq_ok.mpr ⟨_, object_read, bind_eq_ok.mpr ⟨_, fields, rfl⟩⟩
    rw [NodeHeader.parse, Codec.decode, Bytes.require, if_neg (by omega)]
    change ((ObjectHeader.codec.seq NodeHeader.fields).read .little b 0).map _ = _
    rw [both]
    rfl
  obtain ⟨node, parsed, kept⟩ := parse_emptyLeaf header spells.is_leaf (by omega)
  exact ⟨node, sum, parsed, kept.trans (by rw [object_eq])⟩

namespace ContainerDraft

variable {d : ContainerDraft} {p : ContainerParts} {built : ContainerImage} {contents : Bytes}
  {size : BlockSize} {source : BlockSource (Except StoreError)} {r : Resolver}

section Opened

variable (makes : d.Makes p built) (legal : d.blockSize ∈ BlockSize.legal)
  (found : Found d p contents size source)

include makes legal found in
theorem leaf_root (few : d.versions.length ≤ d.fanout) : p.tree.root.address = treeBase ∧
    ∃ top, NodeAt contents size d.order source treeBase top ∧ top.level = 0 := by
  obtain ⟨-, small, -⟩ := size_bounds legal
  obtain ⟨tree, -⟩ := buildMappingTree_eq_ok makes.tree_eq
  obtain ⟨wide, -, top_eq, -⟩ := TreeDraft.build_eq_ok tree
  have length_eq : (Entry.ofVersions d.order d.versions).length ≤ d.mappingDraft.fanout := by
    rw [entries_keyed, List.length_map, keyed, List.length_map, sorted, List.length_mergeSort]
    exact few
  rw [TreeDraft.plan_one wide length_eq] at top_eq
  obtain ⟨node, sound⟩ := TreeDraft.buildNode_sound top_eq small (by dsimp only; decide)
  have address_eq : p.tree.root.address = treeBase := sound.address_eq.trans (UInt64.add_zero _)
  have at_root := nodeAt makes legal found
    (List.mem_append_right _ (List.mem_singleton_self _)) sound
  rw [address_eq] at at_root
  exact ⟨address_eq, node, at_root, UInt16.toNat_inj.mp sound.carries.level_eq⟩

include makes legal found in
theorem perform_lookup (distinct : (d.versions.map Prod.fst).Nodup) (bound : Bound d p source r)
    {oid : ObjectId} (free : reservedIds ≤ oid) {xid : TransactionId}
    {entry : VersionKey × Mapping} (newest : d.Newest oid xid entry) {s s' : Memory}
    (sound : s.Sound contents size d.order) {top : Loaded}
    (asked : (r.readNodeWith Resolver.noMap (.physical p.tree.root.address)).perform s
      = (.ok top, s')) (leaf : top.node.level = 0) :
    (r.lookupMapping oid xid).perform s = (.ok entry.2, s') := by
  obtain ⟨descriptor, maxDepth, has_map, tree_oid, -, -⟩ := bound.has_map
  rw [← tree_oid] at asked
  exact Prod.ext (yields_lookup_newest makes legal found distinct bound free newest s sound).2
    (Resolver.after_lookupMapping_leaf has_map free xid asked leaf)

include makes legal found in
/-- What is known of the newest version leads a resolver to its place. -/
theorem leads_newest (distinct : (d.versions.map Prod.fst).Nodup) (bound : Bound d p source r)
    (address_eq : p.tree.root.address = treeBase) {top : Node}
    (at_root : NodeAt contents size d.order source treeBase top) (leaf : top.level = 0)
    {oid : ObjectId} (free : reservedIds ≤ oid) {xid : TransactionId}
    {entry : VersionKey × Mapping} (newest : d.Newest oid xid entry)
    (kept : entry.2.isDeleted = false) (plain : entry.2.isEncrypted = false)
    (headed : entry.2.hasNoHeader = false) {q : Placement}
    (placed : r.placed entry.2.address entry.2.size = pure q) :
    r.Leads contents size source treeBase top oid xid q := by
  have reads := bound.reads
  refine ⟨⟨reads.source_eq, rfl⟩, ?_, fun s s' sound asked => ?_⟩
  · rw [reads.order_eq]
    exact at_root
  · rw [reads.order_eq] at sound
    rw [← address_eq] at asked
    exact Resolver.perform_place_mapped (perform_lookup makes legal found distinct bound free
      newest sound asked leaf) kept plain headed placed

include makes legal found in
/-- An object of the type of a tree is stored as a leaf without entries if the number of its
transaction spells one: its payload starts with that number. -/
theorem leaf_object (little : d.order = .little) {i : Nat} (h : i < d.objects.length)
    {xid : TransactionId} {flags : UInt16} (spells : SpellsLeaf xid flags)
    (xid_eq : d.objects[i].xid = xid) (tree : d.objects[i].objectType = TypeWord.tree) :
    ∃ node : Node, ∃ sum, source.readBlock (objectAddress i) = .ok node.bytes ∧
      node.Intact .little node.bytes ∧
      node.header = emptyLeaf flags { ObjectDraft.header d.objects[i].oid xid TypeWord.tree 0 with
        checksum := sum } := by
  obtain ⟨roomy, -, addressable⟩ := size_bounds legal
  obtain ⟨bytes, made, listed⟩ := object_listed makes.toPrepares h
  have stored : source.readBlock (objectAddress i) = .ok bytes := found.object listed
  have raw : ObjectDraft.raw .little d.size
      (ObjectDraft.header d.objects[i].oid xid TypeWord.tree 0) (wordBytes .little xid) = .ok bytes := by
    have content_eq : d.content d.objects[i] = wordBytes .little xid := by
      rw [content, if_neg (by rw [tree]; decide), xid_eq]
    rw [buildObject_eq, content_eq, little, xid_eq, tree] at made
    exact made
  have node_size : NodeHeader.size + Footer.size = 96 := rfl
  obtain ⟨node, sum, parsed, header_eq⟩ := leaf_of_raw spells (by omega) addressable raw
  obtain ⟨bytes_eq, -⟩ := node_of_parse parsed
  have verified := (ObjectDraft.raw_holds addressable raw).verified
  rw [← bytes_eq] at stored parsed verified
  refine ⟨node, sum, stored, ⟨verified, parsed, .inl ?_⟩, header_eq⟩
  rw [Node.object, header_eq]
  change TypeWord.code TypeWord.tree = TypeWord.tree
  decide

end Opened

end ContainerDraft

end ObjectStore
