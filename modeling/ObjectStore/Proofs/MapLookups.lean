import ObjectStore.Proofs.RoundTrip

/-
What an object map answers on an image of which nothing is known: a version of the object asked
for, not newer than asked for, out of a leaf to which intact nodes lead from the root.
-/
namespace ObjectStore

open Session

namespace ObjectMap

def mappingIn (map : ObjectMap) (found : Tree.Found) : Except StoreError Mapping := do
  let _ ← decodedAt found.address (VersionKey.parse map.order found.key)
  decodedAt found.address (Mapping.parse map.order found.value)

theorem resolve_after {σ : Type} {map : ObjectMap} {nodes : Reference → Session σ Tree.Loaded}
    {oid : ObjectId} {xid : TransactionId} {s later : σ} {result : Except StoreError Tree.Found}
    (run : ((map.navigator nodes).find VersionKey.order map.treeRoot ⟨oid, xid⟩
      .versioned).perform s = (result, later)) :
    ((map.resolve nodes oid xid).perform s).1 = result >>= map.mappingIn := by
  rw [resolve, perform_bind, run]
  cases result with
  | error err => rfl
  | ok found =>
    rw [ok_bind, mappingIn]
    dsimp only
    rcases VersionKey.parse map.order found.key with d | key
    · rfl
    · rcases Mapping.parse map.order found.value with d | mapping <;> rfl

variable {map : ObjectMap}

theorem mappingIn_eq_error {found : Tree.Found} {err : StoreError}
    (failed : map.mappingIn found = .error err) : ∃ d, err = d.atBlock found.address ∧
      (VersionKey.parse map.order found.key = .error d ∨
        Mapping.parse map.order found.value = .error d) := by
  obtain failed | ⟨_, -, failed⟩ := bind_eq_error.mp failed
  · obtain ⟨d, undecoded, named⟩ := decodedAt_eq_error.mp failed
    exact ⟨d, named, .inl undecoded⟩
  · obtain ⟨d, undecoded, named⟩ := decodedAt_eq_error.mp failed
    exact ⟨d, named, .inr undecoded⟩

theorem mappingIn_eq_ok {found : Tree.Found} {mapping : Mapping}
    (ok : map.mappingIn found = .ok mapping) :
    Mapping.parse map.order found.value = .ok mapping := by
  obtain ⟨_, -, ok⟩ := bind_eq_ok.mp ok
  exact decodedAt_eq_ok.mp ok

end ObjectMap

/-- A node decoded from intact blocks that name the block they are at, for a reference to it. -/
structure Authentic (image : Bytes) (size : BlockSize) (e : ByteOrder) (reference : Reference)
    (loaded : Tree.Loaded) : Prop where
  at_reference : reference = .physical loaded.address
  held : ∃ count, 0 < count ∧
    image.HoldsBlocks size.toNat loaded.address.toNat count loaded.node.bytes
  verified : Object.verifies e loaded.node.bytes = true
  parsed : Tree.Node.parse e loaded.node.bytes = .ok loaded.node
  named : loaded.node.object.oid = loaded.address

section

variable {image : Bytes} {size : BlockSize} {e : ByteOrder}
  {source : BlockSource (Except StoreError)} {r : Resolver}

theorem HandedOut.authentic {block : BlockAddress} {loaded : Tree.Loaded}
    (out : HandedOut image size e (.physical block) loaded) :
    Authentic image size e (.physical block) loaded := by
  obtain ⟨reference, count, loadedBy⟩ := out.genuine
  have at_block := out.in_place block rfl
  constructor
  · rw [at_block]
  · exact ⟨count, loadedBy.some_blocks, loadedBy.held⟩
  · exact loadedBy.verified
  · exact loadedBy.parsed
  · rw [at_block]
    exact Resolver.identityFault?_eq_none out.identified

theorem Tree.Descent.authentic {root : BlockAddress} {top here : Tree.Loaded}
    (descent : Tree.Descent (HandedOut image size e) (.physical root) top here) :
    Tree.Descent (Authentic image size e) (.physical root) top here := by
  induction descent with
  | top out => exact .top out.authentic
  | child _ inside pointer out level_eq not_root ih =>
    exact ih.child inside pointer (HandedOut.authentic out) level_eq not_root

theorem Tree.Descent.last {handed : Reference → Tree.Loaded → Prop} {root : Reference}
    {top here : Tree.Loaded} (descent : Tree.Descent handed root top here) :
    ∃ reference, handed reference here := by
  cases descent with
  | top known => exact ⟨_, known⟩
  | child _ _ _ known _ _ => exact ⟨_, known⟩

theorem Tree.Descent.first {handed : Reference → Tree.Loaded → Prop} {root : Reference}
    {top here : Tree.Loaded} (descent : Tree.Descent handed root top here) : handed root top := by
  induction descent with
  | top known => exact known
  | child _ _ _ _ _ _ ih => exact ih

/-- Of two versions of one object, the one that does not come later is not newer. -/
theorem VersionKey.xid_le {k target : VersionKey} (not_above : compare k target ≠ .gt)
    (same : k.oid = target.oid) : k.xid ≤ target.xid := by
  rw [compare, same, Std.ReflOrd.compare_self] at not_above
  have le : Ord.compare k.xid target.xid ≠ .gt := not_above
  rw [Ne, Std.compare_eq_gt] at le
  exact UInt64.not_lt.mp le

/-- A search for a version stops at a version of the object, not newer than asked for. -/
theorem versioned_key {n : Tree.Node} {sizes : Option Tree.EntrySizes} {oid : ObjectId}
    {xid : TransactionId} {index : Nat} {key : Bytes}
    (located : n.locate sizes VersionKey.order ⟨oid, xid⟩ .versioned = .ok (some index))
    (key_eq : n.key sizes index = .ok key) :
    ∃ x, VersionKey.parse n.order key = .ok ⟨oid, x⟩ ∧ x ≤ xid := by
  obtain ⟨-, ⟨o, compared, not_above⟩, accepted⟩ := Tree.Node.locate_eq_some located
  obtain ⟨stored, read, compared⟩ := bind_eq_ok.mp compared
  rw [key_eq] at read
  cases read
  obtain ⟨k, parsed, same⟩ := map_eq_ok.mp compared
  obtain ⟨stored, read, accepted⟩ := bind_eq_ok.mp accepted
  rw [key_eq] at read
  cases read
  obtain ⟨k', parsed', is_version⟩ := map_eq_ok.mp accepted
  rw [parsed] at parsed'
  cases parsed'
  have oid_eq : k.oid = oid := beq_iff_eq.mp is_version
  refine ⟨k.xid, ?_, VersionKey.xid_le (by rw [same]; exact not_above) oid_eq⟩
  rw [parsed, ← oid_eq]

structure Tree.MapRecord (e mapOrder : ByteOrder) (top leaf : Tree.Loaded) (oid : ObjectId)
    (xid : TransactionId) (mapping : Mapping) : Prop where
  is_leaf : leaf.node.isLeaf = true
  entry : ∃ index key value x, index < leaf.node.keyCount ∧
    leaf.node.key top.node.entrySizes index = .ok key ∧
    leaf.node.value top.node.entrySizes index = .ok value ∧
    VersionKey.parse e key = .ok ⟨oid, x⟩ ∧ x ≤ xid ∧ Mapping.parse mapOrder value = .ok mapping

/-- The leaf that a search of a mapping tree lands in holds the record that answers a lookup. -/
theorem Tree.Landing.mapRecord {mapOrder : ByteOrder} {root : BlockAddress} {top leaf : Tree.Loaded}
    {found : Tree.Found} {oid : ObjectId} {xid : TransactionId} {mapping : Mapping}
    (landing : Tree.Landing (HandedOut image size e) VersionKey.order (.physical root) ⟨oid, xid⟩
      .versioned top found leaf) (parsed : Mapping.parse mapOrder found.value = .ok mapping) :
    Tree.MapRecord e mapOrder top leaf oid xid mapping := by
  obtain ⟨reference, authentic⟩ := landing.descent.authentic.last
  obtain ⟨rightmost, located⟩ := landing.located
  have how : Tree.leafMatch .versioned rightmost = .versioned := rfl
  rw [how] at located
  obtain ⟨x, key_parsed, older⟩ := versioned_key located landing.key_eq
  rw [(node_of_parse authentic.parsed).2.1] at key_parsed
  exact ⟨landing.is_leaf, found.index, found.key, found.value, x,
    (Tree.Node.locate_eq_some located).1, landing.key_eq, landing.value_eq, key_parsed, older,
    parsed⟩

/-- On any image, and whatever was read before, a lookup that answers has come down from the
root of the map through authentic nodes to a leaf that holds the answer. -/
theorem Resolver.lookupMapping_descends (opened : BlockSource.ofBytes image size = .ok source)
    (reads : r.Reads source e) {address : BlockAddress} {mapOrder : ByteOrder}
    {d : MapDescriptor} {map : ObjectMap} {depth : UInt16}
    (described : ObjectMap.ofDescriptor address mapOrder d = .ok map)
    (bound : r.objectMap = some (map.withMaxDepth depth)) {memory later : Memory}
    (reached : Reachable source e memory) {oid : ObjectId} {xid : TransactionId}
    {mapping : Mapping}
    (run : (r.lookupMapping oid xid).perform memory = (.ok mapping, later)) :
    ∃ top leaf, top.address = d.treeOid ∧ top.node.isRoot = true ∧
      Tree.Descent (Authentic image size e) (.physical d.treeOid) top leaf ∧
      Tree.MapRecord e mapOrder top leaf oid xid mapping := by
  have known := (Resolver.ensures_lookupMapping reads opened oid xid _ (reached.sound opened)).2
  rw [run] at known
  obtain ⟨map', found, top, leaf, bound', is_root, landing, parsed⟩ := known mapping rfl
  rw [bound] at bound'
  cases bound'
  have map_eq : map.descriptor = d ∧ map.order = mapOrder := by
    obtain ⟨_, -, rest⟩ := bind_eq_ok.mp described
    obtain ⟨-, rest⟩ := checked_eq_ok.mp rest
    obtain ⟨-, same⟩ := checked_eq_ok.mp rest
    cases same
    exact ⟨rfl, rfl⟩
  have root_eq : (map.withMaxDepth depth).treeRoot = .physical d.treeOid := by
    rw [← map_eq.1]
    rfl
  rw [root_eq] at landing
  have descent := landing.descent.authentic
  have value_parsed : Mapping.parse mapOrder found.value = .ok mapping := by
    rw [← map_eq.2]
    exact parsed
  exact ⟨top, leaf, (Reference.physical.inj descent.first.at_reference).symm, is_root, descent,
    landing.mapRecord value_parsed⟩

theorem Resolver.lookupMapping_descends_withdrawn : ∃ (image : Bytes) (size : BlockSize)
    (source : BlockSource (Except StoreError)) (r : Resolver) (d : MapDescriptor)
    (memory later : Memory) (mapping : Mapping) (top leaf : Tree.Loaded),
      BlockSource.ofBytes image size = .ok source ∧ Reachable source .big memory ∧
      (r.lookupMapping 1024 7).perform memory = (.ok mapping, later) ∧
      top.address = d.treeOid ∧ top.node.isRoot = true ∧
      Tree.Descent (Authentic image size .big) (.physical d.treeOid) top leaf ∧
      Tree.MapRecord .big .big top leaf 1024 7 mapping := by
  obtain ⟨p, built, contents, size, source, c, later, -, -, makes, found, bound, -, reached⟩ :=
    ContainerDraft.withdrawn_modest.opens
  obtain ⟨descriptor, maxDepth, has_map, -, -, described⟩ := bound.has_map
  have yields := ContainerDraft.yields_lookup_newest makes ContainerDraft.withdrawn_modest.legal
    found (by decide) bound (by decide) ContainerDraft.withdrawn_early
  have looked := (yields later (reached.sound found.opened)).2
  have run : (c.resolver.lookupMapping 1024 7).perform later = (.ok _, _) := Prod.ext looked rfl
  obtain ⟨top, leaf, at_root, is_root, descent, is_record⟩ :=
    lookupMapping_descends found.opened bound.reads described has_map reached run
  exact ⟨contents, size, source, c.resolver, descriptor, later, _, _, top, leaf, found.opened,
    reached, run, at_root, is_root, descent, is_record⟩

end

end ObjectStore
