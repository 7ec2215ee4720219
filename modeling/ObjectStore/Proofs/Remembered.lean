import ObjectStore.Container
import ObjectStore.Proofs.Caches
import ObjectStore.Proofs.Descents
import ObjectStore.Proofs.ResolverSteps
import ObjectStore.Proofs.SnapshotWalks

/-
What a reader remembers between its calls. Every node in its cache was once decoded from intact
blocks at its address, where some reference found it; no order of calls puts another one there.
-/
namespace ObjectStore

open Session

structure Resolver.Reads (source : BlockSource (Except StoreError)) (e : ByteOrder)
    (r : Resolver) : Prop where
  source_eq : r.source = source.remembered
  order_eq : r.order = e

/-- A node that was decoded from `count` intact blocks when a reference was followed there. -/
structure LoadedBy (image : Bytes) (size : BlockSize) (e : ByteOrder) (reference : Reference)
    (count : Nat) (address : BlockAddress) (node : Tree.Node) : Prop where
  some_blocks : 0 < count
  held : image.HoldsBlocks size.toNat address.toNat count node.bytes
  verified : Object.verifies e node.bytes = true
  parsed : Tree.Node.parse e node.bytes = .ok node
  identified : identityFault? reference node.object = none
  in_place : ∀ block, reference = .physical block → address = block ∧ count = 1

def Genuine (image : Bytes) (size : BlockSize) (e : ByteOrder) (address : BlockAddress)
    (node : Tree.Node) : Prop :=
  ∃ reference count, LoadedBy image size e reference count address node

def Tree.Node.IsTreeObject (n : Tree.Node) : Prop :=
  n.object.typeCode = TypeWord.tree ∨ n.object.typeCode = TypeWord.treeNode

def Memory.Holds (P : BlockAddress → Tree.Node → Prop) (memory : Memory) : Prop :=
  memory.cache.All P

def Memory.Sound (image : Bytes) (size : BlockSize) (e : ByteOrder) (memory : Memory) : Prop :=
  memory.cache.All (Genuine image size e)

/-- A genuine node as it is handed out for a reference. -/
structure HandedOut (image : Bytes) (size : BlockSize) (e : ByteOrder) (reference : Reference)
    (loaded : Tree.Loaded) : Prop where
  genuine : Genuine image size e loaded.address loaded.node
  identified : identityFault? reference loaded.node.object = none
  in_place : ∀ block, reference = .physical block → loaded.address = block

structure HandedAs (P : BlockAddress → Tree.Node → Prop) (reference : Reference)
    (loaded : Tree.Loaded) : Prop where
  holds : P loaded.address loaded.node
  identified : identityFault? reference loaded.node.object = none
  in_place : ∀ block, reference = .physical block → loaded.address = block

theorem HandedAs.handedOut {image : Bytes} {size : BlockSize} {e : ByteOrder}
    {reference : Reference} {loaded : Tree.Loaded}
    (handed : HandedAs (Genuine image size e) reference loaded) :
    HandedOut image size e reference loaded :=
  ⟨handed.holds, handed.identified, handed.in_place⟩

/-- A property of every node that a resolver remembers, whatever the reference it was loaded for. -/
def Admits (image : Bytes) (size : BlockSize) (e : ByteOrder)
    (P : BlockAddress → Tree.Node → Prop) : Prop :=
  ∀ {reference : Reference} {count : Nat} {address : BlockAddress} {node : Tree.Node},
    LoadedBy image size e reference count address node → node.IsTreeObject → P address node

theorem admits_genuine {image : Bytes} {size : BlockSize} {e : ByteOrder} :
    Admits image size e (Genuine image size e) :=
  fun loaded _ => ⟨_, _, loaded⟩

section

variable {image : Bytes} {size : BlockSize} {e : ByteOrder}
  {source : BlockSource (Except StoreError)} {r : Resolver}
  {P : BlockAddress → Tree.Node → Prop}

/-- A decoded node keeps the bytes and the order that it was decoded from. -/
theorem node_of_parse {b : Bytes} {n : Tree.Node} (parsed : Tree.Node.parse e b = .ok n) :
    n.bytes = b ∧ n.order = e ∧ ObjectHeader.codec.read e b 0 = .ok n.object := by
  obtain ⟨header, header_eq, rest⟩ := bind_eq_ok.mp parsed
  have kept : n.bytes = b ∧ n.order = e ∧ n.object = header.object := by
    split at rest
    · obtain ⟨footer, -, rest⟩ := bind_eq_ok.mp rest
      obtain ⟨_, -, same⟩ := bind_eq_ok.mp rest
      cases same
      exact ⟨rfl, rfl, rfl⟩
    · cases rest
  obtain ⟨bytes_eq, order_eq, object_eq⟩ := kept
  obtain ⟨_, -, read⟩ := bind_eq_ok.mp header_eq
  obtain ⟨fields, read, same⟩ := map_eq_ok.mp read
  obtain ⟨object, first, behind⟩ := bind_eq_ok.mp read
  obtain ⟨tail, -, pair⟩ := bind_eq_ok.mp behind
  cases pair
  rw [object_eq, ← same]
  exact ⟨bytes_eq, order_eq, first⟩

theorem holds_fresh (options : ResolverOptions) : (Memory.fresh options).Holds P :=
  Cache.all_ofCapacity _ _

theorem sound_fresh (options : ResolverOptions) :
    (Memory.fresh options).Sound image size e :=
  holds_fresh options

theorem ensures_verify (order : ByteOrder) (b : Bytes) (block : BlockAddress) (what : String)
    {I : Memory → Prop} : Ensures I (Object.verify order b block what) fun _ =>
      Object.verifies order b = true := by
  unfold Object.verify
  split
  · rename_i verified
    exact ensures_pure verified
  · exact ensures_throw _

namespace Resolver

theorem ensures_checkIdentity (reference : Reference) (address : BlockAddress)
    (h : ObjectHeader) {I : Memory → Prop} :
    Ensures I (checkIdentity reference address h) fun _ => identityFault? reference h = none := by
  unfold checkIdentity
  split
  · rename_i sound
    exact ensures_pure sound
  · exact ensures_throw _

theorem ensures_rejectReserved (oid : ObjectId) {I : Memory → Prop} :
    Ensures I (rejectReserved oid) fun _ => reservedIds ≤ oid := by
  rw [rejectReserved, isReserved]
  split
  · exact ensures_throw _
  · rename_i free
    exact ensures_pure (UInt64.not_lt.mp (by simpa using free))

theorem ensures_placed (address : BlockAddress) (length : UInt32) {I : Memory → Prop} :
    Ensures I (r.placed address length) fun p => 0 < p.blocks.toNat := by
  refine ensures_of_same (fun s => ?_) (fun s s' p run => (placed_eq_ok run).2.2)
  unfold placed
  dsimp only
  split
  · rfl
  · rfl

theorem ensures_block (opened : BlockSource.ofBytes image size = .ok source)
    (address : BlockAddress) :
    Ensures (Memory.Holds P) (source.remembered.readBlock address) fun b =>
      image.HoldsBlocks size.toNat address.toNat 1 b := by
  intro memory sound
  rw [BlockSource.perform_remembered_block]
  exact ⟨sound, fun b read => BlockSource.readBlock_holds opened read⟩

theorem ensures_readPlaced (source_eq : r.source = source.remembered)
    (opened : BlockSource.ofBytes image size = .ok source) (p : Placement) :
    Ensures (Memory.Holds P) (r.readPlaced p) fun b =>
      image.HoldsBlocks size.toNat p.address.toNat p.blocks.toNat b := by
  unfold readPlaced
  split
  · rename_i single
    rw [single, source_eq]
    exact ensures_block opened p.address
  · intro memory sound
    rw [source_eq, BlockSource.perform_remembered_range]
    exact ⟨sound, fun b read => BlockSource.readRange_holds opened read⟩

theorem ensures_chainBlock (source_eq : r.source = source.remembered)
    (opened : BlockSource.ofBytes image size = .ok source) (chain : MapChain) (i : UInt32) :
    Ensures (Memory.Holds P) (chain.readBlock r.source i) fun _ => True := by
  unfold MapChain.readBlock
  split
  · exact ensures_throw _
  · rw [source_eq]
    apply (ensures_block opened _).bind
    intro b _
    apply (ensures_verify _ _ _ _).bind
    intro _ _
    exact (ensures_decodedAt _ _).weaken fun _ _ => trivial

theorem ensures_chain (source_eq : r.source = source.remembered)
    (opened : BlockSource.ofBytes image size = .ok source) (chain : MapChain) (oid : ObjectId) :
    Ensures (Memory.Holds P) (chain.resolve r.source oid) fun _ => True := by
  have scan : ∀ (left : Nat) (i : UInt32), Ensures (Memory.Holds P)
      (chain.resolveFrom r.source oid i left) fun _ => True := by
    intro left
    induction left with
    | zero =>
      intro i
      exact ensures_throw _
    | succ left ih =>
      intro i
      apply (ensures_chainBlock source_eq opened chain i).bind
      intro b _
      split
      · exact ensures_pure trivial
      · split
        · exact ensures_throw _
        · exact ih _
  exact scan _ _

theorem ensures_mappings (source_eq : r.source = source.remembered)
    (opened : BlockSource.ofBytes image size = .ok source) (chain : MapChain) :
    Ensures (Memory.Holds P) (chain.mappings r.source) fun _ => True := by
  have scan : ∀ (left : Nat) (i : UInt32), Ensures (Memory.Holds P)
      (chain.mappingsFrom r.source i left) fun _ => True := by
    intro left
    induction left with
    | zero =>
      intro i
      exact ensures_throw _
    | succ left ih =>
      intro i
      apply (ensures_chainBlock source_eq opened chain i).bind
      intro b _
      split
      · exact ensures_pure trivial
      · exact (ih _).bind fun _ _ => ensures_pure trivial
  exact scan _ _

/-- A place has at least one block, and that of a physical reference is its block alone. -/
theorem ensures_place (source_eq : r.source = source.remembered)
    (opened : BlockSource.ofBytes image size = .ok source) {lookup : Lookup}
    (looks : ∀ oid xid, Ensures (Memory.Holds P) (lookup oid xid) fun _ => True)
    (reference : Reference) :
    Ensures (Memory.Holds P) (r.place lookup reference) fun p =>
      0 < p.blocks.toNat ∧ ∀ block, reference = .physical block → p = ⟨block, 1⟩ := by
  cases reference with
  | physical address =>
    refine ensures_checked fun _ => ensures_pure ⟨Nat.one_pos, ?_⟩
    intro block same
    cases same
    rfl
  | «virtual» oid xid =>
    apply (looks oid xid).bind
    intro mapping _
    refine ensures_checked fun _ => ensures_checked fun _ => ensures_checked fun _ => ?_
    exact (ensures_placed _ _).weaken fun p some_blocks => ⟨some_blocks, fun _ same => nomatch same⟩
  | ephemeral oid =>
    apply (ensures_rejectReserved oid).bind
    intro _ _
    split
    · exact ensures_throw _
    · apply (ensures_chain source_eq opened _ _).bind
      intro mapping _
      exact (ensures_placed _ _).weaken fun p some_blocks =>
        ⟨some_blocks, fun _ same => nomatch same⟩

theorem ensures_loadNode (reads : r.Reads source e)
    (opened : BlockSource.ofBytes image size = .ok source) {reference : Reference}
    {p : Placement} (some_blocks : 0 < p.blocks.toNat)
    (in_place : ∀ block, reference = .physical block → p = ⟨block, 1⟩) :
    Ensures (Memory.Holds P) (r.loadNode reference p) fun node =>
      LoadedBy image size e reference p.blocks.toNat p.address node ∧ node.IsTreeObject := by
  apply (ensures_readPlaced reads.source_eq opened p).bind
  intro b held
  apply (ensures_verify _ _ _ _).bind
  intro _ verified
  apply (ensures_decodedAt _ _).bind
  intro node parsed
  apply (ensures_checkIdentity _ _ _).bind
  intro _ identified
  refine ensures_checked fun coded => ensures_pure ⟨?_, ?_⟩
  · rw [reads.order_eq] at verified parsed
    obtain ⟨bytes_eq, -⟩ := node_of_parse parsed
    subst bytes_eq
    refine ⟨some_blocks, held, verified, parsed, identified, ?_⟩
    intro block same
    rw [in_place block same]
    exact ⟨rfl, rfl⟩
  · by_cases root : node.object.typeCode = TypeWord.tree
    · exact .inl root
    · exact .inr (Decidable.not_not.mp fun other => coded ⟨root, other⟩)

theorem ensures_cached (address : BlockAddress) :
    Ensures (Memory.Holds P) (cached address) fun found =>
      ∀ node, found = some node → P address node := by
  intro memory holds
  have kept := Cache.All.get holds address
  refine ⟨kept.1, fun found same => ?_⟩
  cases same
  exact kept.2

theorem ensures_keep {address : BlockAddress} {node : Tree.Node} (new : P address node) :
    Ensures (Memory.Holds P) (keep address node) fun _ => True :=
  fun _ holds => ⟨Cache.All.insert holds new, fun _ _ => trivial⟩

/-- A node from the cache is as good as one that is loaded, since it is compared with the
reference again. -/
theorem ensures_readNodeWith (reads : r.Reads source e)
    (opened : BlockSource.ofBytes image size = .ok source) {lookup : Lookup}
    (looks : ∀ oid xid, Ensures (Memory.Holds P) (lookup oid xid) fun _ => True)
    (reference : Reference) (admits : ∀ {count : Nat} {address : BlockAddress} {node : Tree.Node},
      LoadedBy image size e reference count address node → node.IsTreeObject → P address node) :
    Ensures (Memory.Holds P) (r.readNodeWith lookup reference) (HandedAs P reference) := by
  apply (ensures_place reads.source_eq opened looks reference).bind
  rintro p ⟨some_blocks, in_place⟩
  have at_block : ∀ block, reference = .physical block → p.address = block := by
    intro block same
    rw [in_place block same]
  apply (ensures_cached p.address).bind
  intro found known
  cases found with
  | some node =>
    refine (ensures_checkIdentity _ _ _).bind fun _ identified => ensures_pure ?_
    exact ⟨known node rfl, identified, at_block⟩
  | none =>
    apply (ensures_loadNode reads opened some_blocks in_place).bind
    rintro node ⟨loaded, coded⟩
    have new : P p.address node := admits loaded coded
    exact (ensures_keep new).bind fun _ _ => ensures_pure ⟨new, loaded.identified, at_block⟩

/-- What is handed out was decoded from intact blocks. -/
theorem ensures_handedOut (reads : r.Reads source e)
    (opened : BlockSource.ofBytes image size = .ok source) {lookup : Lookup}
    (looks : ∀ oid xid, Ensures (Memory.Sound image size e) (lookup oid xid) fun _ => True)
    (reference : Reference) :
    Ensures (Memory.Sound image size e) (r.readNodeWith lookup reference)
      (HandedOut image size e reference) :=
  (ensures_readNodeWith reads opened looks reference
    fun loaded coded => admits_genuine loaded coded).weaken fun _ => HandedAs.handedOut

theorem ensures_lookup_kept (reads : r.Reads source e)
    (opened : BlockSource.ofBytes image size = .ok source) (admits : Admits image size e P)
    (oid : ObjectId) (xid : TransactionId) :
    Ensures (Memory.Holds P) (r.lookupMapping oid xid) fun mapping =>
      ∃ map found top leaf, r.objectMap = some map ∧ top.node.isRoot = true ∧
        Tree.Landing (HandedAs P) VersionKey.order map.treeRoot ⟨oid, xid⟩ .versioned top found
          leaf ∧
        Mapping.parse map.order found.value = .ok mapping := by
  apply (ensures_rejectReserved oid).bind
  intro _ _
  cases bound : r.objectMap with
  | none => exact ensures_throw _
  | some map =>
    have loads : ∀ reference, Ensures (Memory.Holds P)
        ((map.navigator (r.readNodeWith noMap)).source reference) (HandedAs P reference) :=
      fun reference => ensures_readNodeWith reads opened (fun _ _ => ensures_throw _) reference
        fun loaded coded => admits loaded coded
    apply (Tree.Navigator.find_lands map.treeRoot (fun _ => loads _) (⟨oid, xid⟩ : VersionKey)
      .versioned).bind
    rintro found ⟨top, leaf, is_root, -, landing⟩
    apply (ensures_decodedAt _ _).bind
    intro _ _
    exact (ensures_decodedAt _ _).weaken fun mapping parsed =>
      ⟨map, found, top, leaf, rfl, is_root, landing, parsed⟩

theorem ensures_lookupMapping (reads : r.Reads source e)
    (opened : BlockSource.ofBytes image size = .ok source) (oid : ObjectId)
    (xid : TransactionId) :
    Ensures (Memory.Sound image size e) (r.lookupMapping oid xid) fun mapping =>
      ∃ map found top leaf, r.objectMap = some map ∧ top.node.isRoot = true ∧
        Tree.Landing (HandedOut image size e) VersionKey.order map.treeRoot ⟨oid, xid⟩
          .versioned top found leaf ∧
        Mapping.parse map.order found.value = .ok mapping := by
  refine (ensures_lookup_kept reads opened admits_genuine oid xid).weaken ?_
  rintro mapping ⟨map, found, top, leaf, bound, is_root, landing, parsed⟩
  exact ⟨map, found, top, leaf, bound, is_root, landing.mono fun _ _ => HandedAs.handedOut, parsed⟩

theorem ensures_node_kept (reads : r.Reads source e)
    (opened : BlockSource.ofBytes image size = .ok source) (admits : Admits image size e P)
    (reference : Reference) :
    Ensures (Memory.Holds P) (r.readNode reference) (HandedAs P reference) :=
  ensures_readNodeWith reads opened
    (fun _ _ => (ensures_lookup_kept reads opened admits _ _).weaken fun _ _ => trivial) reference
    fun loaded coded => admits loaded coded

theorem ensures_readNode (reads : r.Reads source e)
    (opened : BlockSource.ofBytes image size = .ok source) (reference : Reference) :
    Ensures (Memory.Sound image size e) (r.readNode reference)
      (HandedOut image size e reference) :=
  (ensures_node_kept reads opened admits_genuine reference).weaken fun _ => HandedAs.handedOut

theorem ensures_resolve (source_eq : r.source = source.remembered)
    (opened : BlockSource.ofBytes image size = .ok source) (reference : Reference)
    (places : Ensures (Memory.Holds P) (r.place r.lookupMapping reference) fun _ => True) :
    Ensures (Memory.Holds P) (r.resolve reference) fun _ => True := by
  apply places.bind
  intro p _
  apply (ensures_readPlaced source_eq opened p).bind
  intro b _
  apply (ensures_verify _ _ _ _).bind
  intro _ _
  apply (ensures_decodedAt _ _).bind
  intro header _
  exact (ensures_checkIdentity _ _ _).bind fun _ _ => ensures_pure trivial

end Resolver

/-- Opening a container reads no tree nodes, in whatever order its superblock is written. -/
theorem ensures_openAt (opened : BlockSource.ofBytes image size = .ok source)
    (address : BlockAddress) (options : ResolverOptions) :
    Ensures (Memory.Holds P) (Container.openAt source.remembered address options)
      fun _ => True := by
  apply (Resolver.ensures_block opened address).bind
  intro block _
  apply (ensures_ofExcept _).bind
  intro order _
  apply (ensures_verify _ _ _ _).bind
  intro _ _
  apply (ensures_decodedAt _ _).bind
  intro s _
  apply ensures_checked
  intro _
  apply (ensures_ofExcept _).bind
  intro chain _
  dsimp only
  split
  · exact Ensures.bind (P := fun _ => True) (ensures_pure trivial) fun _ _ => ensures_pure trivial
  · refine Ensures.bind (P := fun _ => True) ?_ fun _ _ => ensures_pure trivial
    have places : Ensures (Memory.Holds P)
        (Resolver.place ((Resolver.ofSource source.remembered order options).withCheckpoint chain)
          (Resolver.lookupMapping
            ((Resolver.ofSource source.remembered order options).withCheckpoint chain))
          (.physical s.objectMap)) fun _ => True := ensures_checked fun _ => ensures_pure trivial
    apply (Resolver.ensures_resolve rfl opened (.physical s.objectMap) places).bind
    intro object _
    apply (ensures_decodedAt _ _).bind
    intro d _
    exact (ensures_ofExcept _).bind fun map _ => ensures_pure trivial

/-- The slots of the ring are read past the cache. -/
theorem ensures_candidateAt {c : Container} (source_eq : c.resolver.source = source.remembered)
    (opened : BlockSource.ofBytes image size = .ok source) (address : BlockAddress) :
    Ensures (Memory.Holds P) (c.candidateAt address) fun _ => True := by
  unfold Container.candidateAt
  rw [source_eq]
  have front : Ensures (Memory.Holds P)
      (source.remembered.readBytes address 0 ObjectHeader.size.toUInt32) fun _ => True := by
    intro memory holds
    rw [BlockSource.perform_remembered_bytes]
    exact ⟨holds, fun _ _ => trivial⟩
  apply front.bind
  intro front _
  split
  · exact ensures_pure trivial
  · split
    · exact ensures_pure trivial
    · apply (Resolver.ensures_block opened address).bind
      intro block _
      split
      · exact ensures_pure trivial
      · split
        · exact ensures_pure trivial
        · split <;> exact ensures_pure trivial

theorem ensures_latestCheckpoint {c : Container} (source_eq : c.resolver.source = source.remembered)
    (opened : BlockSource.ofBytes image size = .ok source) :
    Ensures (Memory.Holds P) c.latestCheckpoint fun _ => True := by
  have scan : ∀ (left : Nat) (slot : UInt32) (best : Option Candidate),
      Ensures (Memory.Holds P) (c.latestFrom slot best left) fun _ => True := by
    intro left
    induction left with
    | zero => exact fun slot best => ensures_pure trivial
    | succ left ih =>
      intro slot best
      unfold Container.latestFrom
      split
      · exact ih _ _
      · apply (ensures_candidateAt source_eq opened _).bind
        intro found _
        split
        · exact ih _ _
        · exact ih _ _
  apply (scan _ _ _).bind
  intro best _
  split
  · exact ensures_pure trivial
  · exact ensures_throw _

theorem ensures_checkpointMappings {c : Container}
    (source_eq : c.resolver.source = source.remembered)
    (opened : BlockSource.ofBytes image size = .ok source) :
    Ensures (Memory.Holds P) c.checkpointMappings fun _ => True := by
  unfold Container.checkpointMappings
  split
  · exact Resolver.ensures_mappings source_eq opened _
  · exact ensures_pure trivial

theorem ensures_volumes {I : Memory → Prop} {c : Container}
    (resolves : ∀ reference, Ensures I (c.resolver.resolve reference) fun _ => True) :
    Ensures I c.volumes fun _ => True := by
  refine ensures_mapM fun slot _ => ?_
  unfold Container.volume
  split
  · exact ensures_throw _
  · apply (resolves _).bind
    intro object _
    apply ensures_checked
    intro _
    apply (ensures_decodedAt _ _).bind
    intro magic _
    exact ensures_checked fun _ => ensures_pure trivial

theorem ensures_snapshots {I : Memory → Prop} {nodes : Reference → Reading Tree.Loaded}
    (loads : ∀ block, Ensures I (nodes (.physical block)) fun _ => True) (map : ObjectMap) :
    Ensures I (map.snapshots nodes) fun _ => True := by
  intro memory holds
  refine ⟨?_, fun _ _ => trivial⟩
  by_cases has_tree : map.descriptor.hasSnapshotTree = true
  · by_cases physical : map.descriptor.snapshotTreeStorage? = some .physical
    · have beside : ∀ oid, Ensures I ((map.navigator nodes).source
          (map.snapshotTreeRoot.sibling oid)) fun _ => True := loads
      rw [map.perform_snapshots nodes has_tree physical]
      exact (Tree.Navigator.ensures_walkWith _ beside map.keepSnapshot (memory, []) holds).1
    · rw [ObjectMap.snapshots, has_tree]
      simp only [Bool.not_true, Bool.false_eq_true, ↓reduceIte, ne_eq, physical, not_false_eq_true]
      exact holds
  · rw [ObjectMap.snapshots, eq_false_of_ne_true has_tree]
    exact holds

end

/-- The memories that calls in any order lead to. Containers may be opened on the source in any
way; what is called are some resolvers, which read tree nodes for some references. -/
inductive Memory.Reached (source : BlockSource (Except StoreError)) (resolvers : Resolver → Prop)
    (references : Reference → Prop) : Memory → Prop where
  | fresh (options : ResolverOptions) : Reached source resolvers references (.fresh options)
  | note {memory : Memory} (access : Access) : Reached source resolvers references memory →
      Reached source resolvers references (memory.note access)
  | clear {memory : Memory} : Reached source resolvers references memory →
      Reached source resolvers references { memory with cache := memory.cache.clear }
  | peek {memory : Memory} (address : BlockAddress) :
      Reached source resolvers references memory →
      Reached source resolvers references { memory with cache := (memory.cache.get address).2 }
  | openAt {memory : Memory} (address : BlockAddress) (options : ResolverOptions) :
      Reached source resolvers references memory → Reached source resolvers references
        ((Container.openAt source.remembered address options).perform memory).2
  | resolve {memory : Memory} {r : Resolver} (called : resolvers r) (reference : Reference) :
      Reached source resolvers references memory →
      Reached source resolvers references ((r.resolve reference).perform memory).2
  | lookupMapping {memory : Memory} {r : Resolver} (called : resolvers r) (oid : ObjectId)
      (xid : TransactionId) : Reached source resolvers references memory →
      Reached source resolvers references ((r.lookupMapping oid xid).perform memory).2
  | readNode {memory : Memory} {r : Resolver} (called : resolvers r) {reference : Reference}
      (read : references reference) : Reached source resolvers references memory →
      Reached source resolvers references ((r.readNode reference).perform memory).2
  | find {memory : Memory} {r : Resolver} {τ : Type} (called : resolvers r)
      (order : Tree.KeyOrder τ) {root : Reference} (read : references root) (target : τ)
      (how : Tree.Match) : Reached source resolvers references memory →
      Reached source resolvers references
        ((r.navigator.find order root target how).perform memory).2
  | walk {memory : Memory} {r : Resolver} {ρ : Type} (called : resolvers r) {root : Reference}
      (read : references root) (visit : Bytes → Bytes → Session ρ Unit) (own : ρ) :
      Reached source resolvers references memory → Reached source resolvers references
        ((r.navigator.walkWith root visit).perform (memory, own)).2.1
  | volumes {memory : Memory} {c : Container} (called : resolvers c.resolver) :
      Reached source resolvers references memory →
      Reached source resolvers references (c.volumes.perform memory).2
  | checkpointMappings {memory : Memory} {c : Container} (called : resolvers c.resolver) :
      Reached source resolvers references memory →
      Reached source resolvers references (c.checkpointMappings.perform memory).2
  | latestCheckpoint {memory : Memory} {c : Container} (called : resolvers c.resolver) :
      Reached source resolvers references memory →
      Reached source resolvers references (c.latestCheckpoint.perform memory).2
  | snapshots {memory : Memory} {r : Resolver} (called : resolvers r) (map : ObjectMap) :
      Reached source resolvers references memory →
      Reached source resolvers references ((map.snapshots r.readNode).perform memory).2

/-- Resolvers of a source whose lookups and whose readings for these references put nothing into
the cache but nodes with a property. -/
structure Resolver.KeepTo (source : BlockSource (Except StoreError)) (resolvers : Resolver → Prop)
    (references : Reference → Prop) (P : BlockAddress → Tree.Node → Prop) : Prop where
  source_eq : ∀ {r}, resolvers r → r.source = source.remembered
  looks : ∀ {r}, resolvers r → ∀ oid xid,
    Ensures (Memory.Holds P) (r.lookupMapping oid xid) fun _ => True
  loads : ∀ {r}, resolvers r → ∀ {reference}, references reference →
    Ensures (Memory.Holds P) (r.readNode reference) fun _ => True
  physical : ∀ block, references (.physical block)
  beside : ∀ {root}, references root → ∀ oid, references (root.sibling oid)

/-- What they keep to holds of every memory that calls on them lead to. -/
theorem Memory.Reached.holds {image : Bytes} {size : BlockSize}
    {source : BlockSource (Except StoreError)} {resolvers : Resolver → Prop}
    {references : Reference → Prop} {P : BlockAddress → Tree.Node → Prop}
    (opened : BlockSource.ofBytes image size = .ok source)
    (keep : Resolver.KeepTo source resolvers references P) {memory : Memory}
    (reached : memory.Reached source resolvers references) : memory.Holds P := by
  have resolves : ∀ {r}, resolvers r → ∀ reference,
      Ensures (Memory.Holds P) (r.resolve reference) fun _ => True := by
    intro r called reference
    have places := Resolver.ensures_place (keep.source_eq called) opened (keep.looks called)
      reference
    exact Resolver.ensures_resolve (keep.source_eq called) opened reference
      (places.weaken fun _ _ => trivial)
  induction reached with
  | fresh options => exact holds_fresh options
  | note access _ ih => exact ih
  | clear _ _ => exact Cache.All.clear _
  | peek address _ ih => exact (Cache.All.get ih address).1
  | openAt address options _ ih => exact (ensures_openAt opened address options _ ih).1
  | resolve called reference _ ih => exact (resolves called reference _ ih).1
  | lookupMapping called oid xid _ ih => exact (keep.looks called oid xid _ ih).1
  | readNode called read _ ih => exact (keep.loads called read _ ih).1
  | @find _ r _ called order root read target how _ ih =>
    have loads : ∀ oid, Ensures (Memory.Holds P) (r.navigator.source (root.sibling oid))
        fun _ => True := fun oid => keep.loads called (keep.beside read oid)
    exact (Tree.Navigator.ensures_find root loads target how _ ih).1
  | @walk memory r _ called root read visit own _ ih =>
    have loads : ∀ oid, Ensures (Memory.Holds P) (r.navigator.source (root.sibling oid))
        fun _ => True := fun oid => keep.loads called (keep.beside read oid)
    exact (Tree.Navigator.ensures_walkWith root loads visit (memory, own) ih).1
  | volumes called _ ih => exact (ensures_volumes (resolves called) _ ih).1
  | checkpointMappings called _ ih =>
    exact (ensures_checkpointMappings (keep.source_eq called) opened _ ih).1
  | latestCheckpoint called _ ih =>
    exact (ensures_latestCheckpoint (keep.source_eq called) opened _ ih).1
  | snapshots called map _ ih =>
    exact (ensures_snapshots (fun block => keep.loads called (keep.physical block)) map _ ih).1

/-- The memories that calls lead to on resolvers that read the source in one byte order, whatever
else is bound to them. -/
def Reachable (source : BlockSource (Except StoreError)) (e : ByteOrder) : Memory → Prop :=
  Memory.Reached source (Resolver.Reads source e) fun _ => True

section

variable {image : Bytes} {size : BlockSize} {e : ByteOrder}
  {source : BlockSource (Except StoreError)} {memory : Memory}

theorem Reachable.readNode {r : Resolver} (reached : Reachable source e memory)
    (reads : r.Reads source e) (reference : Reference) :
    Reachable source e ((r.readNode reference).perform memory).2 :=
  Memory.Reached.readNode reads trivial reached

/-- What a resolver admits to its memory it holds of every memory that calls lead to. -/
theorem Reachable.holds {P : BlockAddress → Tree.Node → Prop}
    (opened : BlockSource.ofBytes image size = .ok source) (admits : Admits image size e P)
    (reached : Reachable source e memory) : memory.Holds P := by
  refine Memory.Reached.holds opened ⟨fun reads => reads.source_eq, ?_, ?_, fun _ => trivial,
    fun _ _ => trivial⟩ reached
  · intro r reads oid xid
    exact (Resolver.ensures_lookup_kept reads opened admits oid xid).weaken fun _ _ => trivial
  · intro r reads reference _
    exact (Resolver.ensures_node_kept reads opened admits reference).weaken fun _ _ => trivial

theorem Reachable.sound (opened : BlockSource.ofBytes image size = .ok source)
    (reached : Reachable source e memory) : memory.Sound image size e :=
  reached.holds opened admits_genuine

end

end ObjectStore
