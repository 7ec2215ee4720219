import ObjectStore.Proofs.CheckedChains

/-
Resolving on a machine, with a cache that starts empty. Whatever the calls are, only the trees
of object maps put nodes into it; these are physical, so that a node takes up one block of the
image. No operation on such a node fails, and all of them together have too few records for a
count of them to overflow.
-/
namespace ObjectStore

open Session ObjectStore.Tree

/-- A node that was parsed from the one block at its address. -/
structure Single (image : Bytes) (size : BlockSize) (address : BlockAddress) (node : Node) :
    Prop where
  held : image.HoldsBlocks size.toNat address.toNat 1 node.bytes
  parsed : Node.parse node.order node.bytes = .ok node

theorem Tree.Node.keyCount_lt {n : Node} (decoded : n.Decoded) : n.keyCount < 2 ^ 16 := by
  have holds := decoded.areas.table_holds
  have len := n.header.tableSpace.len.toNat_lt
  have some_bytes : 0 < Slot.sizeOf n.isFixed := by
    cases n.isFixed <;> decide
  have le := Nat.le_mul_of_pos_right n.keyCount some_bytes
  omega

namespace Single

variable {image : Bytes} {size : BlockSize} {address : BlockAddress} {node : Node}

theorem decoded (single : Single image size address node) (held : image.size < 2 ^ 63) :
    node.Decoded :=
  ⟨single.parsed, Nat.lt_of_le_of_lt single.held.size_le held⟩

/-- A block has room for no more keys than bytes. -/
theorem keyCount_le (single : Single image size address node) (held : image.size < 2 ^ 63) :
    node.keyCount ≤ size.toNat := by
  have areas := (single.decoded held).areas
  have holds := areas.table_holds
  have keys_le := areas.keys_le
  have end_le := node.valueEnd_le
  have size_eq := single.held.length_eq
  have start_eq : node.keyStart = node.tableStart + node.header.tableSpace.len.toNat := rfl
  have some_bytes : 0 < Slot.sizeOf node.isFixed := by
    cases node.isFixed <;> decide
  have le := Nat.le_mul_of_pos_right node.keyCount some_bytes
  omega

theorem address_lt (single : Single image size address node) :
    address.toNat < image.size / size.toNat := by
  have some_bytes := single.held.sized Nat.one_pos
  exact (Nat.le_div_iff_mul_le some_bytes).mpr single.held.inside

end Single

namespace Checked

section

variable {α : Type}

def shardIndex (c : Cache α) (address : BlockAddress) : Machine (Option Nat) :=
  if c.shards.size = 0 then return none
  else do
    let index ← Machine.rem address.toNat c.shards.size
    return some index

def lookUp (c : Cache α) (address : BlockAddress) : Machine (Option α × Cache α) := do
  match ← shardIndex c address with
  | none => return (none, c)
  | some index =>
    match c.shards[index]? with
    | none => return (none, c)
    | some s =>
      match s.entries[address]? with
      | some a => return (some a, { c with hits := c.hits + 1 })
      | none => return (none, { c with misses := c.misses + 1 })

def remember (c : Cache α) (address : BlockAddress) (a : α) : Machine (Cache α) := do
  match ← shardIndex c address with
  | none => return c
  | some index =>
    return { c with shards := c.shards.modify index (·.insert c.shardLimit address a) }

def cacheOf (capacity shardCount : Nat) : Machine (Cache α) :=
  if capacity = 0 then return ⟨#[], 0, 0, 0⟩
  else do
    let count := min (max shardCount 1) capacity
    let limit ← Machine.divCeil 64 capacity count
    return ⟨Array.replicate count Shard.empty, limit, 0, 0⟩

theorem shardIndex_none {c : Cache α} (empty : c.shards.size = 0) (address : BlockAddress) :
    shardIndex c address = .ok none := if_pos empty

theorem shardIndex_some {c : Cache α} (some_shards : c.shards.size ≠ 0)
    (address : BlockAddress) : shardIndex c address = .ok (some (c.shardIndex address)) := by
  unfold shardIndex
  rw [if_neg some_shards, Machine.rem_eq some_shards]
  rfl

theorem lookUp_eq (c : Cache α) (address : BlockAddress) :
    lookUp c address = .ok (c.get address) := by
  unfold lookUp Cache.get
  by_cases empty : c.shards.size = 0
  · rw [shardIndex_none empty, ok_bind, Array.getElem?_eq_none (by omega)]
    rfl
  · rw [shardIndex_some empty, ok_bind]
    dsimp only
    cases c.shards[c.shardIndex address]? with
    | none => rfl
    | some s =>
      dsimp only
      cases s.entries[address]? with
      | none => rfl
      | some a => rfl

theorem remember_eq (c : Cache α) (address : BlockAddress) (a : α) :
    remember c address a = .ok (c.insert address a) := by
  unfold remember Cache.insert
  by_cases empty : c.shards.size = 0
  · have nothing : c.shards.modify (c.shardIndex address) (·.insert c.shardLimit address a)
        = c.shards := by
      rw [Array.eq_empty_of_size_eq_zero empty]
      rfl
    rw [shardIndex_none empty, ok_bind, nothing]
    rfl
  · rw [shardIndex_some empty, ok_bind]
    rfl

theorem cacheOf_eq {capacity : Nat} (fits : capacity < 2 ^ 64) (shardCount : Nat) :
    (cacheOf capacity shardCount : Machine (Cache α)) = .ok (.ofCapacity capacity shardCount) := by
  unfold cacheOf Cache.ofCapacity
  by_cases none : capacity = 0
  · rw [if_pos none, if_pos none]
    rfl
  · have some_shards : 0 < min (max shardCount 1) capacity := by omega
    rw [if_neg none, if_neg none]
    dsimp only
    rw [Machine.divCeil_eq some_shards fits]
    rfl

end

def fresh (options : ResolverOptions) : Machine Memory := do
  let cache ← cacheOf options.cacheCapacity options.cacheShards
  return ⟨cache, []⟩

theorem fresh_eq {options : ResolverOptions} (fits : options.cacheCapacity < 2 ^ 64) :
    fresh options = .ok (.fresh options) := by
  unfold fresh
  rw [cacheOf_eq fits]
  rfl

def cached (address : BlockAddress) : Running Memory (Option Node) := fun memory => do
  let (found, cache) ← lookUp memory.cache address
  return (.ok found, { memory with cache := cache })

def keep (address : BlockAddress) (node : Node) : Running Memory Unit := fun memory => do
  let cache ← remember memory.cache address node
  return (.ok (), { memory with cache := cache })

def placed (blockSize : UInt32) (address : BlockAddress) (length : UInt32) :
    Running Memory Placement := do
  let blocks ← Machine.divCeil 32 length.toNat (max blockSize 1).toNat
  if blocks = 0 then throw (.corrupt address "mapped object has zero size")
  return ⟨address, blocks.toUInt32⟩

section

variable {m : Type → Type} [Monad m] [MonadExceptOf StoreError m] [MonadLiftT Machine m]

def resolveVersion (map : ObjectMap) (nodes : Reference → m Loaded) (oid : ObjectId)
    (xid : TransactionId) : m Mapping := do
  let found ← find (map.navigator nodes) .version map.treeRoot ⟨oid, xid⟩ .versioned
  let _ ← decodedAt found.address (versionKey map.order found.key)
  decodedAt found.address (mapping map.order found.value)

def snapshotOf (map : ObjectMap) (key value : Bytes) : m (TransactionId × Snapshot) := do
  let root := map.snapshotTreeRoot.oid
  let xid ← decodedAt root (word map.order .eight key 0)
  let snapshot ← decodedAt root (snapshot map.order value)
  return (xid, snapshot)

def snapshots (map : ObjectMap) (nodes : Reference → m Loaded) :
    m (List (TransactionId × Snapshot)) := do
  if !map.descriptor.hasSnapshotTree then return []
  if map.descriptor.snapshotTreeStorage? ≠ some .physical then
    throw (.unsupported
      s!"object map snapshot tree with type {hexText map.descriptor.snapshotTreeType.toNat}")
  let collector : Navigator (StateT (List (TransactionId × Snapshot)) m) :=
    map.navigator fun reference => liftM (nodes reference)
  let visit (key value : Bytes) : StateT (List (TransactionId × Snapshot)) m Unit := do
    let record ← snapshotOf map key value
    modify (record :: ·)
  let (_, newestFirst) ← (walk collector map.snapshotTreeRoot visit).run []
  return newestFirst.reverse

end

section

variable (disk : BlockSource (Running Memory)) (r : Resolver)

def readPlaced (p : Placement) : Running Memory Bytes :=
  if p.blocks = 1 then disk.readBlock p.address else disk.readRange p.address p.blocks

abbrev Lookup := ObjectId → TransactionId → Running Memory Mapping

def noMap : Lookup := fun oid xid => .plain (Resolver.noMap oid xid)

def place (lookup : Lookup) (reference : Reference) : Running Memory Placement := do
  match reference with
  | .physical address =>
      if address = 0 then throw (.reservedId 0)
      return ⟨address, 1⟩
  | .virtual oid xid =>
      let mapping ← lookup oid xid
      if mapping.isDeleted then
        throw (.keyNotFound s!"{reference.text} deleted at or before xid {xid}")
      if mapping.isEncrypted then throw (.unsupported s!"{reference.text} is encrypted")
      if mapping.hasNoHeader then
        throw (.unsupported s!"{reference.text} is stored without an object header")
      placed disk.blockSize mapping.address mapping.size
  | .ephemeral oid =>
      Running.plain (Resolver.rejectReserved oid)
      match r.checkpoint with
      | none => throw (.unsupported "ephemeral object without a checkpoint map")
      | some chain =>
        let mapping ← resolveFrom chain disk oid 0 chain.maxBlocks.toNat
        placed disk.blockSize mapping.address mapping.size

def loadNode (reference : Reference) (p : Placement) : Running Memory Node := do
  let bytes ← readPlaced disk p
  verify r.order bytes p.address "B-tree node"
  let node ← decodedAt p.address (node r.order bytes)
  Running.plain (Resolver.checkIdentity reference p.address node.object)
  let code := node.object.typeCode
  if code ≠ TypeWord.tree ∧ code ≠ TypeWord.treeNode then
    throw (.corrupt p.address
      s!"{reference.text} is a {node.object.typeName} object, not a B-tree node")
  return node

def readNodeWith (lookup : Lookup) (reference : Reference) : Running Memory Loaded := do
  let p ← place disk r lookup reference
  match ← cached p.address with
  | some node =>
      Running.plain (Resolver.checkIdentity reference p.address node.object)
      return ⟨p.address, node⟩
  | none =>
      let node ← loadNode disk r reference p
      keep p.address node
      return ⟨p.address, node⟩

def lookupMapping : Lookup := fun oid xid => do
  Running.plain (Resolver.rejectReserved oid)
  match r.objectMap with
  | none => noMap oid xid
  | some map => resolveVersion map (readNodeWith disk r noMap) oid xid

def readNode (reference : Reference) : Running Memory Loaded :=
  readNodeWith disk r (lookupMapping disk r) reference

def resolve (reference : Reference) : Running Memory ResolvedObject := do
  let p ← place disk r (lookupMapping disk r) reference
  let bytes ← readPlaced disk p
  verify r.order bytes p.address reference.text
  let header ← decodedAt p.address (header r.order bytes)
  Running.plain (Resolver.checkIdentity reference p.address header)
  return ⟨reference, p.address, header, bytes⟩

end

/-- Sessions whose cache has nothing but nodes of one block. -/
abbrev reading (image : Bytes) (size : BlockSize) : Tracking StoreError (Running Memory) Reading :=
  .sessions (Memory.Holds (Single image size))

/-- A source and a resolver that reads it, with a chain that goes around a ring of blocks. -/
structure Equips (image : Bytes) (size : BlockSize) (disk : BlockSource (Running Memory))
    (r : Resolver) : Prop where
  mirrors : Mirrors (reading image size) image size disk r.source
  ring : ∀ chain, r.checkpoint = some chain → chain.ringBlocks ≠ 0

variable {image : Bytes} {size : BlockSize} {disk : BlockSource (Running Memory)} {r : Resolver}

theorem cached_tracks (address : BlockAddress) :
    (reading image size).Tracks (cached address) (Resolver.cached address) fun found =>
      ∀ node, found = some node → Single image size address node := by
  intro memory holds
  refine ⟨?_, Resolver.ensures_cached address memory holds⟩
  change (lookUp memory.cache address >>= _) = _
  rw [lookUp_eq, ok_bind]
  rfl

theorem keep_tracks {address : BlockAddress} {node : Node}
    (single : Single image size address node) :
    (reading image size).Tracks (keep address node) (Resolver.keep address node)
      fun _ => True := by
  intro memory holds
  refine ⟨?_, Resolver.ensures_keep single memory holds⟩
  change (remember memory.cache address node >>= _) = _
  rw [remember_eq, ok_bind]
  rfl

theorem placed_tracks (equips : Equips image size disk r) (address : BlockAddress)
    (length : UInt32) :
    (reading image size).Tracks (placed disk.blockSize address length) (r.placed address length)
      fun _ => True := by
  let F := reading image size
  have some_bytes : 0 < r.placingSize.toNat := Resolver.one_le_max _
  have counted := Resolver.toNat_blocksFor some_bytes length
  have divided : Machine.divCeil 32 length.toNat (max disk.blockSize 1).toNat
      = .ok (r.placingSize.blocksFor length.toUInt64).toNat := by
    rw [counted, equips.mirrors.blockSize_eq]
    exact Machine.divCeil_eq some_bytes length.toNat_lt
  refine F.carried divided ?_
  unfold Resolver.placed
  simp only [← UInt64.toNat_inj, UInt64.toNat_zero]
  exact F.checked fun _ => F.done trivial

theorem readPlaced_tracks (equips : Equips image size disk r) (p : Placement) :
    (reading image size).Tracks (readPlaced disk p) (r.readPlaced p)
      (image.HoldsBlocks size.toNat p.address.toNat p.blocks.toNat) := by
  refine (reading image size).branch (fun one => ?_) fun _ => equips.mirrors.readRange _ _
  rw [one]
  exact equips.mirrors.readBlock p.address

theorem plain_checkIdentity (reference : Reference) (address : BlockAddress) (h : ObjectHeader) :
    (reading image size).Tracks (Running.plain (Resolver.checkIdentity reference address h))
      (Resolver.checkIdentity reference address h) fun _ => True :=
  Tracking.plain ((Resolver.ensures_checkIdentity reference address h).weaken fun _ _ => trivial)

theorem plain_rejectReserved (oid : ObjectId) :
    (reading image size).Tracks (Running.plain (Resolver.rejectReserved oid))
      (Resolver.rejectReserved oid) fun _ => True :=
  Tracking.plain ((Resolver.ensures_rejectReserved oid).weaken fun _ _ => trivial)

/-- A place that is found is the block itself for a physical reference. -/
theorem place_tracks (equips : Equips image size disk r) {lookup' : Lookup}
    {lookup : Resolver.Lookup}
    (looks : ∀ oid xid, (reading image size).Tracks (lookup' oid xid) (lookup oid xid)
      fun _ => True) (reference : Reference) :
    (reading image size).Tracks (place disk r lookup' reference) (r.place lookup reference)
      fun p => ∀ block, reference = .physical block → p = ⟨block, 1⟩ := by
  let F := reading image size
  cases reference with
  | physical address =>
    refine F.checked fun _ => F.done ?_
    intro block same
    cases same
    rfl
  | «virtual» oid xid =>
    refine F.bind (looks oid xid) fun mapping _ => ?_
    refine F.checked fun _ => ?_
    refine F.checked fun _ => ?_
    refine F.checked fun _ => ?_
    exact F.weaken (placed_tracks equips _ _) fun _ _ _ same => nomatch same
  | ephemeral oid =>
    refine F.bind (plain_rejectReserved oid) fun _ _ => ?_
    cases bound : r.checkpoint with
    | none => exact F.refused _
    | some chain =>
      refine F.bind (resolve_tracks equips.mirrors (equips.ring chain bound) oid)
        fun mapping _ => ?_
      exact F.weaken (placed_tracks equips _ _) fun _ _ _ same => nomatch same

theorem loadNode_tracks (equips : Equips image size disk r) (reference : Reference)
    (address : BlockAddress) :
    (reading image size).Tracks (loadNode disk r reference ⟨address, 1⟩)
      (r.loadNode reference ⟨address, 1⟩) (Single image size address) := by
  let F := reading image size
  refine F.bind (readPlaced_tracks equips ⟨address, 1⟩) fun bytes held => ?_
  refine F.bind (verify_tracks _ r.order bytes address _) fun _ _ => ?_
  have parsing := decodedAt_tracks F address (node_runs r.order bytes)
  refine F.bind parsing fun node parsed => ?_
  refine F.bind (plain_checkIdentity reference address _) fun _ _ => ?_
  refine F.checked fun _ => F.done ?_
  obtain ⟨bytes_eq, order_eq, -⟩ := node_of_parse parsed
  refine ⟨?_, ?_⟩
  · rw [bytes_eq]
    exact held
  · rw [bytes_eq, order_eq]
    exact parsed

/-- A node comes from the cache or from the one block it is read from. -/
theorem readNodeWith_tracks (equips : Equips image size disk r) {lookup' : Lookup}
    {lookup : Resolver.Lookup}
    (looks : ∀ oid xid, (reading image size).Tracks (lookup' oid xid) (lookup oid xid)
      fun _ => True) (block : BlockAddress) :
    (reading image size).Tracks (readNodeWith disk r lookup' (.physical block))
      (r.readNodeWith lookup (.physical block))
      fun loaded => Single image size loaded.address loaded.node := by
  let F := reading image size
  refine F.bind (place_tracks equips looks (.physical block)) fun p place => ?_
  rw [place block rfl]
  refine F.bind (cached_tracks block) fun found remembered => ?_
  cases found with
  | some node =>
    refine F.bind (plain_checkIdentity _ block _) fun _ _ => ?_
    exact F.done (remembered node rfl)
  | none =>
    refine F.bind (loadNode_tracks equips _ block) fun node single => ?_
    exact F.bind (keep_tracks single) fun _ _ => F.done single

theorem snapshotOf_tracks {m' m : Type → Type} [Monad m'] [MonadExceptOf StoreError m']
    [MonadLiftT Machine m'] [Monad m] [MonadExceptOf StoreError m] (F : Tracking StoreError m' m)
    (map : ObjectMap) (key value : Bytes) :
    F.Tracks (snapshotOf map key value) (map.snapshotOf key value) fun _ => True := by
  refine F.bind (decodedAt_tracks F _ (word_runs map.order .eight key 0)) fun xid _ => ?_
  refine F.bind (decodedAt_tracks F _ (snapshot_runs map.order value)) fun snapshot _ => ?_
  exact F.done trivial

def addresses (image : Bytes) (size : BlockSize) : List BlockAddress :=
  (List.range (image.size / size.toNat)).map Nat.toUInt64

theorem mem_addresses {address : BlockAddress} {node : Node}
    (single : Single image size address node) : address ∈ addresses image size :=
  List.mem_map.mpr ⟨address.toNat, List.mem_range.mpr single.address_lt, UInt64.ofNat_toNat⟩

/-- The records of all blocks together are no more than the bytes of the image. -/
theorem addresses_few (held : image.size < 2 ^ 63) :
    size.toNat * (addresses image size).length < 2 ^ 64 := by
  have le := Nat.mul_div_le image.size size.toNat
  rw [addresses, List.length_map, List.length_range]
  omega

section

variable (held : image.size < 2 ^ 63) {nodes' : Reference → Running Memory Loaded}
  {nodes : Reference → Reading Loaded}
  (reads : ∀ block, (reading image size).Tracks (nodes' (.physical block))
    (nodes (.physical block)) fun loaded => Single image size loaded.address loaded.node)

include held reads

/-- The tree of an object map is fed with nodes of one block each. -/
theorem feeds_of_nodes (map : ObjectMap) (block : BlockAddress) :
    Feeds (reading image size) (map.navigator nodes') (map.navigator nodes) (.physical block)
      fun loaded => Single image size loaded.address loaded.node where
  depth_eq := rfl
  source := reads
  decoded _ single := single.decoded held

theorem resolveVersion_tracks (map : ObjectMap) (oid : ObjectId) (xid : TransactionId) :
    (reading image size).Tracks (resolveVersion map nodes' oid xid) (map.resolve nodes oid xid)
      fun _ => True := by
  let F := reading image size
  have searching := find_tracks (feeds_of_nodes held reads map map.descriptor.treeOid) .version
    ⟨oid, xid⟩ .versioned
  refine F.bind searching fun found _ => ?_
  have key := decodedAt_tracks F found.address (versionKey_runs map.order found.key)
  have value := decodedAt_tracks F found.address (mapping_runs map.order found.value)
  refine F.bind key fun _ _ => ?_
  exact F.weaken value fun _ _ => trivial

theorem snapshots_tracks (map : ObjectMap) :
    (reading image size).Tracks (snapshots map nodes') (map.snapshots nodes) fun _ => True := by
  let F := reading image size
  let G := F.withState (List (TransactionId × Snapshot))
  have feeds : Feeds G (map.navigator fun reference => liftM (nodes' reference))
      (map.navigator fun reference => liftM (nodes reference)) map.snapshotTreeRoot
      fun loaded => Single image size loaded.address loaded.node :=
    ⟨rfl, fun block => F.lifted (reads block), fun _ single => single.decoded held⟩
  have visits : ∀ key value, G.Tracks
      (do let record ← snapshotOf map key value; modify (record :: ·))
      (do let record ← map.snapshotOf key value; modify (record :: ·)) fun _ => True := by
    intro key value
    exact G.bind (snapshotOf_tracks G map key value) fun record _ _ => F.done trivial
  have walking := walk_tracks feeds visits (fun _ single => mem_addresses single)
    (fun _ single => single.keyCount_le held) (addresses_few held)
  refine F.branch (fun _ => F.done trivial) fun _ => ?_
  refine F.checked fun _ => ?_
  exact F.bind (walking []) fun _ _ => F.done trivial

end

theorem lookupMapping_tracks (equips : Equips image size disk r) (oid : ObjectId)
    (xid : TransactionId) :
    (reading image size).Tracks (lookupMapping disk r oid xid) (r.lookupMapping oid xid)
      fun _ => True := by
  let F := reading image size
  have without : ∀ oid xid, F.Tracks (noMap oid xid) (Resolver.noMap oid xid)
      fun _ => True := fun oid xid => Tracking.plain (ensures_throw _)
  refine F.bind (plain_rejectReserved oid) fun _ _ => ?_
  cases r.objectMap with
  | none => exact without oid xid
  | some map =>
    exact resolveVersion_tracks equips.mirrors.held (readNodeWith_tracks equips without) map oid xid

theorem readNode_tracks (equips : Equips image size disk r) (block : BlockAddress) :
    (reading image size).Tracks (readNode disk r (.physical block))
      (r.readNode (.physical block)) fun loaded => Single image size loaded.address loaded.node :=
  readNodeWith_tracks equips (lookupMapping_tracks equips) block

theorem resolve_object_tracks (equips : Equips image size disk r) (reference : Reference) :
    (reading image size).Tracks (resolve disk r reference) (r.resolve reference)
      fun _ => True := by
  let F := reading image size
  refine F.bind (place_tracks equips (lookupMapping_tracks equips) reference)
    fun p _ => ?_
  refine F.bind (readPlaced_tracks equips p) fun bytes _ => ?_
  refine F.bind (verify_tracks _ r.order bytes p.address _) fun _ _ => ?_
  have parsing := decodedAt_tracks F p.address (header_runs r.order bytes)
  refine F.bind parsing fun header _ => ?_
  refine F.bind (plain_checkIdentity reference p.address header) fun _ _ => ?_
  exact F.done trivial

end Checked

end ObjectStore
