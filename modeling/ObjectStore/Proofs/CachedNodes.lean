import ObjectStore.Proofs.Remembered
import ObjectStore.Proofs.Simulations

/-
A resolver that remembers nodes beside one that reads each of them anew. What is remembered is
looked up by the block that it starts on, however many blocks were to be read there; so the two
agree only as long as all that is read from the first block of a node on is just that node.
-/
namespace ObjectStore

open Session

def Access.start : Access → BlockAddress
  | .block address => address
  | .range start _ => start
  | .bytes address _ _ => address

def Access.blocks : Access → UInt32
  | .block _ => 1
  | .range _ count => count
  | .bytes _ _ _ => 1

def BlockSource.answer (s : BlockSource (Except StoreError)) : Access → Except StoreError Bytes
  | .block address => s.readBlock address
  | .range start count => s.readRange start count
  | .bytes address offset len => s.readBytes address offset len

def Placement.access (p : Placement) : Access :=
  if p.blocks = 1 then .block p.address else .range p.address p.blocks

theorem Placement.access_start (p : Placement) : p.access.start = p.address := by
  unfold access
  split <;> rfl

theorem Placement.access_blocks (p : Placement) : p.access.blocks = p.blocks := by
  unfold access
  split
  · rename_i single
    exact single.symm
  · rfl

/-- Bytes that pass for a tree node under some reference. -/
structure Tree.Node.Intact (e : ByteOrder) (b : Bytes) (n : Tree.Node) : Prop where
  verified : Object.verifies e b = true
  parsed : Tree.Node.parse e b = .ok n
  coded : n.object.typeCode = TypeWord.tree ∨ n.object.typeCode = TypeWord.treeNode

/-- Whatever is read from the first block of an intact node on takes in as many blocks as that
node does. -/
def Steady (source : BlockSource (Except StoreError)) (e : ByteOrder)
    (accesses : List Access) : Prop :=
  ∀ x ∈ accesses, ∀ y ∈ accesses, y.start = x.start →
    ∀ b n, source.answer x = .ok b → Tree.Node.Intact e b n → y.blocks = x.blocks

theorem Steady.mono {source : BlockSource (Except StoreError)} {e : ByteOrder}
    {accesses more : List Access} (within : accesses ⊆ more) (steady : Steady source e more) :
    Steady source e accesses :=
  fun x x_mem y y_mem => steady x (within x_mem) y (within y_mem)

theorem steady_of_single {source : BlockSource (Except StoreError)} {e : ByteOrder}
    {accesses : List Access} (single : ∀ x ∈ accesses, x.blocks = 1) :
    Steady source e accesses :=
  fun x x_mem y y_mem _ _ _ _ _ => (single y y_mem).trans (single x x_mem).symm

def ReadBefore (source : BlockSource (Except StoreError)) (e : ByteOrder)
    (accesses : List Access) (address : BlockAddress) (node : Tree.Node) : Prop :=
  ∃ count b, (Placement.mk address count).access ∈ accesses ∧
    source.answer (Placement.mk address count).access = .ok b ∧ Tree.Node.Intact e b node

theorem ReadBefore.mono {source : BlockSource (Except StoreError)} {e : ByteOrder}
    {accesses more : List Access} (within : accesses ⊆ more) {address : BlockAddress}
    {node : Tree.Node} (before : ReadBefore source e accesses address node) :
    ReadBefore source e more address node := by
  obtain ⟨count, b, mem, read, intact⟩ := before
  exact ⟨count, b, within mem, read, intact⟩

/-- A memory beside one that holds no nodes: what the first remembers, a reader with the second
has read. -/
structure Memory.Beside (source : BlockSource (Except StoreError)) (e : ByteOrder)
    (s t : Memory) : Prop where
  known : s.cache.All (ReadBefore source e t.accesses)
  bare : t.cache.shards = #[]

theorem Memory.beside_fresh (source : BlockSource (Except StoreError)) (e : ByteOrder)
    (options : ResolverOptions) {other : ResolverOptions} (off : other.cacheCapacity = 0) :
    (Memory.fresh options).Beside source e (.fresh other) := by
  refine ⟨Cache.all_ofCapacity _ _, ?_⟩
  rw [fresh, Cache.ofCapacity, if_pos off]

namespace Resolver

variable {source : BlockSource (Except StoreError)} {r : Resolver}

/-- What the two resolvers have in common, while the second reads no node over other blocks than
before. -/
abbrev Level (source : BlockSource (Except StoreError)) (r : Resolver) (x : Reading α) : Prop :=
  Simulates (fun t => Steady source r.order t.accesses) (Memory.Beside source r.order) x x

/-- To read from the source leaves what is known of the two memories as it is. -/
theorem level_noted {x : Reading α} {access : Access} {result : Except StoreError α}
    (runs : ∀ s, x.perform s = (result, s.note access)) : Level source r x := by
  have longer : ∀ t : Memory, t.accesses ⊆ (t.note access).accesses :=
    fun t => List.subset_cons_self access t.accesses
  constructor
  · intro t steady
    rw [runs] at steady
    exact steady.mono (longer t)
  · intro s t beside _
    rw [runs, runs]
    exact ⟨rfl, beside.known.mono fun _ _ before => before.mono (longer t), beside.bare⟩

theorem level_verify (order : ByteOrder) (b : Bytes) (block : BlockAddress) (what : String) :
    Level source r (Object.verify order b block what) :=
  simulates_ite (simulates_pure _) (simulates_throw _)

theorem level_checkIdentity (reference : Reference) (address : BlockAddress) (h : ObjectHeader) :
    Level source r (checkIdentity reference address h) := by
  constructor
  · intro t steady
    rwa [perform_checkIdentity] at steady
  · intro s t beside _
    rw [perform_checkIdentity, perform_checkIdentity]
    exact ⟨rfl, beside⟩

theorem level_rejectReserved (oid : ObjectId) : Level source r (rejectReserved oid) :=
  simulates_ite (simulates_throw _) (simulates_pure _)

theorem level_placed (address : BlockAddress) (length : UInt32) :
    Level source r (r.placed address length) :=
  simulates_checked (simulates_pure _)

theorem perform_readPlaced (source_eq : r.source = source.remembered) (p : Placement) (s : Memory) :
    (r.readPlaced p).perform s = (source.answer p.access, s.note p.access) := by
  rw [readPlaced, Placement.access, source_eq]
  split
  · exact source.perform_remembered_block _ s
  · exact source.perform_remembered_range _ _ s

/-- An intact node is handed out if its header is the one that is asked for. -/
theorem perform_loadNode_intact (source_eq : r.source = source.remembered) {p : Placement}
    {b : Bytes} {node : Tree.Node} (read : source.answer p.access = .ok b)
    (intact : Tree.Node.Intact r.order b node) (reference : Reference) (s : Memory) :
    (r.loadNode reference p).perform s
      = ((identityOf reference p.address node.object).map fun _ => node, s.note p.access) := by
  have fetched := perform_readPlaced source_eq p s
  rw [read] at fetched
  have passes : (Object.verify r.order b p.address "B-tree node" : Reading Unit) = pure () :=
    if_pos intact.verified
  have decoded : (decodedAt p.address (Tree.Node.parse r.order b) : Reading Tree.Node)
      = pure node := by
    rw [intact.parsed]
    rfl
  have coded : ¬(node.object.typeCode ≠ TypeWord.tree ∧
      node.object.typeCode ≠ TypeWord.treeNode) := by
    rintro ⟨not_tree, not_node⟩
    exact intact.coded.elim not_tree not_node
  have checked := perform_checkIdentity reference p.address node.object (s.note p.access)
  rw [loadNode, bind_of_ok fetched, passes, pure_bind, decoded, pure_bind]
  cases identity : identityOf reference p.address node.object with
  | error e =>
    rw [identity] at checked
    exact bind_of_error checked
  | ok _ =>
    rw [identity] at checked
    rw [bind_of_ok checked]
    dsimp only
    rw [if_neg coded]
    rfl

/-- Loading takes one access, whatever comes of it. -/
theorem after_loadNode (source_eq : r.source = source.remembered) (reference : Reference)
    (p : Placement) (s : Memory) :
    ((r.loadNode reference p).perform s).2 = s.note p.access := by
  rw [loadNode, perform_bind, perform_readPlaced source_eq]
  cases source.answer p.access with
  | error e => rfl
  | ok b =>
    refine (Ensures.bind (I := fun m => m = s.note p.access) (Q := fun _ => True)
      (ensures_verify _ _ _ _) ?_ _ rfl).1
    intro _ _
    apply (ensures_decodedAt _ _).bind
    intro node _
    apply (ensures_checkIdentity _ _ _).bind
    intro _ _
    exact ensures_checked fun _ => ensures_pure trivial

theorem readBefore_of_load (source_eq : r.source = source.remembered) {reference : Reference}
    {p : Placement} {s s' : Memory} {node : Tree.Node}
    (run : (r.loadNode reference p).perform s = (.ok node, s')) :
    ReadBefore source r.order s'.accesses p.address node := by
  obtain ⟨b, mid, fetch, run⟩ := perform_bind_ok.mp run
  rw [perform_readPlaced source_eq] at fetch
  obtain ⟨read, rfl⟩ := Prod.ext_iff.mp fetch
  obtain ⟨_, _, verify, run⟩ := perform_bind_ok.mp run
  obtain ⟨verified, rfl⟩ := verify_eq_ok verify
  obtain ⟨decoded, _, decode, run⟩ := perform_bind_ok.mp run
  obtain ⟨parsed, rfl⟩ := perform_decodedAt_ok decode
  obtain ⟨_, _, identity, run⟩ := perform_bind_ok.mp run
  obtain ⟨-, rfl⟩ := checkIdentity_eq_ok identity
  dsimp only at run
  split at run
  · cases run
  · rename_i coded
    cases run
    exact ⟨p.blocks, b, List.mem_cons_self, read, verified, parsed,
      Decidable.or_iff_not_not_and_not.mpr coded⟩

theorem level_loadNode (source_eq : r.source = source.remembered) (reference : Reference)
    (p : Placement) : Level source r (r.loadNode reference p) := by
  apply (level_noted (perform_readPlaced source_eq p)).bind
  intro b
  apply (level_verify _ b _ _).bind
  intro _
  apply (simulates_decodedAt _ _).bind
  intro node
  apply (level_checkIdentity _ _ _).bind
  intro _
  exact simulates_checked (simulates_pure _)

def readNodeAt (r : Resolver) (reference : Reference) (p : Placement) : Reading Tree.Loaded := do
  match ← cached p.address with
  | some node =>
      checkIdentity reference p.address node.object
      return ⟨p.address, node⟩
  | none =>
      let node ← r.loadNode reference p
      keep p.address node
      return ⟨p.address, node⟩

theorem readNodeWith_eq (r : Resolver) (lookup : Lookup) (reference : Reference) :
    r.readNodeWith lookup reference
      = r.place lookup reference >>= fun p => r.readNodeAt reference p := rfl

theorem perform_cached (address : BlockAddress) (s : Memory) : (cached address).perform s
    = (.ok (s.cache.get address).1, { s with cache := (s.cache.get address).2 }) := rfl

theorem perform_readNodeAt_hit {reference : Reference} {p : Placement} {s : Memory}
    {node : Tree.Node} (hit : (s.cache.get p.address).1 = some node) :
    (r.readNodeAt reference p).perform s =
      ((identityOf reference p.address node.object).map fun _ => ⟨p.address, node⟩,
        { s with cache := (s.cache.get p.address).2 }) := by
  have looked := perform_cached p.address s
  rw [hit] at looked
  rw [readNodeAt, bind_of_ok looked]
  dsimp only
  rw [perform_then_pure, perform_checkIdentity]

theorem perform_readNodeAt_miss {reference : Reference} {p : Placement} {s : Memory}
    (miss : (s.cache.get p.address).1 = none) :
    (r.readNodeAt reference p).perform s =
      match (r.loadNode reference p).perform { s with cache := (s.cache.get p.address).2 } with
      | (.ok node, s') =>
          (.ok ⟨p.address, node⟩, { s' with cache := s'.cache.insert p.address node })
      | (.error e, s') => (.error e, s') := by
  have looked := perform_cached p.address s
  rw [miss] at looked
  rw [readNodeAt, bind_of_ok looked]
  dsimp only
  rw [perform_bind]
  rcases (r.loadNode reference p).perform { s with cache := (s.cache.get p.address).2 }
    with ⟨e | node, s'⟩ <;> rfl

theorem perform_readNodeAt_bare (reference : Reference) (p : Placement) {s : Memory}
    (bare : s.cache.shards = #[]) :
    (r.readNodeAt reference p).perform s =
      match (r.loadNode reference p).perform s with
      | (.ok node, s') =>
          (.ok ⟨p.address, node⟩, { s' with cache := s'.cache.insert p.address node })
      | (.error e, s') => (.error e, s') := by
  have missed := Cache.get_bare bare p.address
  rw [perform_readNodeAt_miss (congrArg Prod.fst missed), missed]

/-- Two accesses at the place of an intact node are the same access. -/
theorem same_access {accesses : List Access} (steady : Steady source r.order accesses)
    {p q : Placement} {b : Bytes} {node : Tree.Node} (p_mem : p.access ∈ accesses)
    (q_mem : q.access ∈ accesses) (address_eq : p.address = q.address)
    (read : source.answer q.access = .ok b) (intact : Tree.Node.Intact r.order b node) :
    p = q := by
  have start_eq : p.access.start = q.access.start := by
    rw [p.access_start, q.access_start, address_eq]
  have blocks_eq := steady _ q_mem _ p_mem start_eq b node read intact
  rw [p.access_blocks, q.access_blocks] at blocks_eq
  cases p
  cases q
  simp_all

/-- The accesses that reading a node takes are those of loading it, if it is not remembered. -/
theorem lasting_readNodeAt (source_eq : r.source = source.remembered) (reference : Reference)
    (p : Placement) (t : Memory)
    (steady : Steady source r.order ((r.readNodeAt reference p).perform t).2.accesses) :
    Steady source r.order t.accesses := by
  cases looked : (t.cache.get p.address).1 with
  | some node =>
    rw [perform_readNodeAt_hit looked] at steady
    exact steady
  | none =>
    rw [perform_readNodeAt_miss looked] at steady
    have kept := (level_loadNode source_eq reference p).lasting
      { t with cache := (t.cache.get p.address).2 }
    rcases run : (r.loadNode reference p).perform { t with cache := (t.cache.get p.address).2 }
      with ⟨e | node, t'⟩
    · rw [run] at steady kept
      exact kept steady
    · rw [run] at steady kept
      exact kept steady

/-- A remembered node was read over the blocks that are asked for now, so to load it again would
make no difference. -/
theorem level_readNodeAt (source_eq : r.source = source.remembered) (reference : Reference)
    (p : Placement) : Level source r (r.readNodeAt reference p) := by
  refine ⟨lasting_readNodeAt source_eq reference p, fun s t beside steady => ?_⟩
  have looked := Cache.All.get beside.known p.address
  have loaded := perform_readNodeAt_bare (r := r) reference p beside.bare
  have after := after_loadNode source_eq reference p t
  have step := (level_loadNode source_eq reference p).agree
    { s with cache := (s.cache.get p.address).2 } t ⟨looked.1, beside.bare⟩
  rcases right : (r.loadNode reference p).perform t with ⟨result, t'⟩
  rw [right] at after step loaded
  rw [loaded] at steady ⊢
  subst after
  have last : Steady source r.order (t.note p.access).accesses := by
    cases result with
    | error e => exact steady
    | ok node => exact steady
  cases hit : (s.cache.get p.address).1 with
  | some node =>
    -- The other reader has loaded this node before and loads it again now; the run is steady, so
    -- it does both by one access.
    obtain ⟨count, b, mem, read, intact⟩ := looked.2 node hit
    have same := same_access last (p := p) (q := ⟨p.address, count⟩) List.mem_cons_self
      (List.mem_cons_of_mem _ mem) rfl read intact
    rw [← same] at read
    have again := perform_loadNode_intact source_eq read intact reference t
    rw [right] at again
    have known := looked.1.mono fun _ _ before =>
      before.mono (List.subset_cons_self p.access t.accesses)
    have result_eq := congrArg Prod.fst again
    dsimp only at result_eq
    rw [perform_readNodeAt_hit hit, result_eq]
    cases identityOf reference p.address node.object with
    | error e => exact ⟨rfl, known, beside.bare⟩
    | ok _ => exact ⟨rfl, known, Cache.insert_bare beside.bare _ _⟩
  | none =>
    obtain ⟨same, kept⟩ := step last
    rw [perform_readNodeAt_miss hit]
    rcases left : (r.loadNode reference p).perform { s with cache := (s.cache.get p.address).2 }
      with ⟨result', s'⟩
    rw [left] at same kept
    subst same
    cases result' with
    | error e => exact ⟨rfl, kept⟩
    | ok node =>
      exact ⟨rfl, kept.known.insert (readBefore_of_load source_eq right),
        Cache.insert_bare kept.bare _ _⟩

theorem level_chain (source_eq : r.source = source.remembered) (chain : MapChain) (oid : ObjectId) :
    Level source r (chain.resolve r.source oid) := by
  have block : ∀ i, Level source r (chain.readBlock r.source i) := by
    intro i
    unfold MapChain.readBlock
    split
    · exact simulates_throw _
    · rename_i address _
      rw [source_eq]
      apply (level_noted (source.perform_remembered_block address)).bind
      intro b
      exact (level_verify _ b _ _).bind fun _ => simulates_decodedAt _ _
  have scan : ∀ (left : Nat) (i : UInt32),
      Level source r (chain.resolveFrom r.source oid i left) := by
    intro left
    induction left with
    | zero => exact fun i => simulates_throw _
    | succ left ih =>
      intro i
      apply (block i).bind
      intro b
      split
      · exact simulates_pure _
      · exact simulates_ite (simulates_throw _) (ih _)
  exact scan _ _

theorem level_place (source_eq : r.source = source.remembered) {lookup : Lookup}
    (looks : ∀ oid xid, Level source r (lookup oid xid)) (reference : Reference) :
    Level source r (r.place lookup reference) := by
  cases reference with
  | physical address => exact simulates_checked (simulates_pure _)
  | «virtual» oid xid =>
    apply (looks oid xid).bind
    intro mapping
    exact simulates_checked (simulates_checked (simulates_checked (level_placed _ _)))
  | ephemeral oid =>
    apply (level_rejectReserved oid).bind
    intro _
    split
    · exact simulates_throw _
    · exact (level_chain source_eq _ _).bind fun mapping => level_placed _ _

theorem level_readNodeWith (source_eq : r.source = source.remembered) {lookup : Lookup}
    (looks : ∀ oid xid, Level source r (lookup oid xid)) (reference : Reference) :
    Level source r (r.readNodeWith lookup reference) := by
  rw [readNodeWith_eq]
  exact (level_place source_eq looks reference).bind fun p => level_readNodeAt source_eq reference p

/-- The tree of the object map is read in the same way as every other tree. -/
theorem level_lookupMapping (source_eq : r.source = source.remembered) (oid : ObjectId)
    (xid : TransactionId) : Level source r (r.lookupMapping oid xid) := by
  apply (level_rejectReserved oid).bind
  intro _
  split
  · exact simulates_throw _
  · rename_i map _
    have agree : (map.navigator (r.readNodeWith noMap)).Agrees
        (fun t => Steady source r.order t.accesses) (Memory.Beside source r.order)
        (map.navigator (r.readNodeWith noMap)) :=
      ⟨rfl, level_readNodeWith source_eq fun _ _ => simulates_throw _⟩
    apply (Tree.Navigator.simulates_find agree _ _ _ _).bind
    intro found
    apply (simulates_decodedAt _ _).bind
    intro _
    exact simulates_decodedAt _ _

theorem level_readNode (source_eq : r.source = source.remembered) (reference : Reference) :
    Level source r (r.readNode reference) :=
  level_readNodeWith source_eq (level_lookupMapping source_eq) reference

theorem level_resolve (source_eq : r.source = source.remembered) (reference : Reference) :
    Level source r (r.resolve reference) := by
  apply (level_place source_eq (level_lookupMapping source_eq) reference).bind
  intro p
  apply (level_noted (perform_readPlaced source_eq p)).bind
  intro b
  apply (level_verify _ b _ _).bind
  intro _
  apply (simulates_decodedAt _ _).bind
  intro header
  exact (level_checkIdentity _ _ _).bind fun _ => simulates_pure _

theorem navigator_agrees (source_eq : r.source = source.remembered) :
    r.navigator.Agrees (fun t => Steady source r.order t.accesses)
      (Memory.Beside source r.order) r.navigator :=
  ⟨rfl, level_readNode source_eq⟩

end Resolver

end ObjectStore
