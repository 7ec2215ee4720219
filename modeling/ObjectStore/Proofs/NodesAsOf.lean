import ObjectStore.Proofs.CachedCalls
import ObjectStore.Proofs.ResolverSteps
import ObjectStore.Proofs.WalkRounds

/-
Trees of virtual nodes, read as they stood at a transaction. The root's transaction is passed on
to every reference below it, and each node that is entered, remembered or read, has been compared
with the reference that led to it; so no node that was written later is met on any way down.
-/
namespace ObjectStore

open Session

namespace Tree

variable {handed : ObjectId → Loaded → Prop}

/-- A node that a pointer of one of these nodes names, one level below it. -/
def PointedTo (handed : ObjectId → Loaded → Prop) (sizes : Option EntrySizes)
    (nodes : List Loaded) (n : Loaded) : Prop :=
  ∃ parent ∈ nodes, ∃ index oid, index < parent.node.keyCount ∧
    parent.node.child sizes index = .ok oid ∧ handed oid n ∧
    n.node.level.toNat + 1 = parent.node.level.toNat

/-- The first of these nodes was handed out for the name of a tree, and every other one for the
name that a pointer of theirs gives it. -/
def Descends (handed : ObjectId → Loaded → Prop) (base : ObjectId) (nodes : List Loaded) : Prop :=
  ∀ top ∈ nodes.head?, handed base top ∧
    ∀ n ∈ nodes.tail, PointedTo handed top.node.entrySizes nodes n

def Answered (handed : ObjectId → Loaded → Prop) (root : Reference) (asks : List Ask) : Prop :=
  ∀ oid n, ⟨root.sibling oid, .ok n⟩ ∈ asks → handed oid n

theorem Answered.left {root : Reference} {asks more : List Ask}
    (answered : Answered handed root (asks ++ more)) : Answered handed root asks :=
  fun oid n asked => answered oid n (List.mem_append_left _ asked)

theorem Answered.right {root : Reference} {asks more : List Ask}
    (answered : Answered handed root (asks ++ more)) : Answered handed root more :=
  fun oid n asked => answered oid n (List.mem_append_right _ asked)

theorem Node.child_eq_ok {n : Node} {sizes : Option EntrySizes} {index : Nat} {oid : ObjectId}
    (pointer : n.child sizes index = .ok oid) : index < n.keyCount := by
  obtain ⟨-, rest⟩ := checked_eq_ok.mp pointer
  obtain ⟨_, held, -⟩ := bind_eq_ok.mp rest
  obtain ⟨_, slot, -⟩ := bind_eq_ok.mp held
  unfold Node.slot at slot
  split at slot
  · assumption
  · cases slot

section

variable {τ ρ : Type} {limit : UInt16} {trunk : Trunk} {order : KeyOrder τ} {root : Reference}
  {target : τ} {how : Match} {visit : Bytes → Bytes → Session ρ Unit} {nodes : List Loaded}

theorem Stepped.pointedTo {path : List BlockAddress} {parent child : Loaded} {index : Nat}
    {asks : List Ask} (step : Stepped limit trunk path parent index asks (.ok child))
    (answered : Answered handed trunk.root asks) (known : parent ∈ nodes) :
    PointedTo handed trunk.sizes nodes child := by
  cases step with
  | @entered oid _ pointer new level_eq not_root =>
    have inside := Node.child_eq_ok pointer
    exact ⟨parent, known, index, oid, inside, pointer, answered oid child List.mem_cons_self,
      level_eq⟩

theorem Rooted.handed_out {base : ObjectId} {asks : List Ask} {top : Loaded}
    (start : Rooted limit root asks (.ok top)) (answered : Answered handed root asks)
    (base_eq : root.sibling base = root) : handed base top := by
  cases start with
  | entered is_root shallow =>
    apply answered base top
    rw [base_eq]
    exact List.mem_cons_self

/-- Below a node on its way, a search enters nodes that the nodes on its way point to. -/
theorem Trail.pointedTo {rightmost : Bool} {path : List BlockAddress} {here : Loaded}
    {asks : List Ask} {entered : List Loaded} {result : Except StoreError Found}
    (trail : Trail limit trunk order target how rightmost path here asks entered result)
    (answered : Answered handed trunk.root asks) (known : here ∈ nodes)
    (among : ∀ n ∈ entered, n ∈ nodes) : ∀ n ∈ entered, PointedTo handed trunk.sizes nodes n := by
  induction trail with
  | leaf is_leaf => simp
  | lost inner located => simp
  | stopped inner located step => simp
  | child inner located step below ih =>
    obtain ⟨first, rest⟩ := List.forall_mem_cons.mp among
    exact List.forall_mem_cons.mpr
      ⟨step.pointedTo answered.left known, ih answered.right first rest⟩

theorem Searched.descends {base : ObjectId} {asks : List Ask} {entered : List Loaded}
    {result : Except StoreError Found}
    (searched : Searched limit order root target how asks entered result)
    (base_eq : root.sibling base = root) (answered : Answered handed root asks) :
    Descends handed base entered := by
  cases searched with
  | refused start => exact fun top first => nomatch first
  | below start trail =>
    rintro _ ⟨⟩
    exact ⟨start.handed_out answered.left base_eq, trail.pointedTo answered.right
      List.mem_cons_self fun n later => List.mem_cons_of_mem _ later⟩

/-- A walk that has stops at known nodes before it enters nodes that known nodes point to. -/
theorem Round.pointedTo {entered : List BlockAddress} {own final : ρ} {stops : List Stop}
    {asks : List Ask} {new : List Loaded} {records : List (Bytes × Bytes)}
    {result : Except StoreError Unit}
    (round : Round limit trunk visit entered own stops asks new records result final)
    (answered : Answered handed trunk.root asks) (known : ∀ stop ∈ stops, stop.here ∈ nodes)
    (among : ∀ n ∈ new, n ∈ nodes) : ∀ n ∈ new, PointedTo handed trunk.sizes nodes n := by
  induction round with
  | done => simp
  | unreadable is_leaf read => simp
  | refused is_leaf read rejected => simp
  | stopped inner step => simp
  | shared inner step again => simp
  | record is_leaf read accepted rest ih =>
    exact ih answered (List.forall_mem_cons.mp known).2 among
  | @child _ path _ _ here child _ stops _ _ _ _ _ inner step new rest ih =>
    obtain ⟨here_known, later_known⟩ := List.forall_mem_cons.mp known
    obtain ⟨child_among, rest_among⟩ := List.forall_mem_cons.mp among
    refine List.forall_mem_cons.mpr ⟨step.pointedTo answered.left here_known, ?_⟩
    refine ih answered.right (List.forall_mem_append.mpr ⟨?_, later_known⟩) rest_among
    intro stop at_child
    obtain ⟨index, -, rfl⟩ := List.mem_map.mp at_child
    exact child_among

theorem Walked.descends {base : ObjectId} {own final : ρ} {asks : List Ask}
    {records : List (Bytes × Bytes)} {result : Except StoreError Nat}
    (walked : Walked limit visit root own asks nodes records result final)
    (base_eq : root.sibling base = root) (answered : Answered handed root asks) :
    Descends handed base nodes := by
  cases walked with
  | refused start => exact fun top first => nomatch first
  | round start round =>
    rintro _ ⟨⟩
    refine ⟨start.handed_out answered.left base_eq, round.pointedTo answered.right
      (fun stop at_top => ?_) fun n later => List.mem_cons_of_mem _ later⟩
    obtain ⟨index, -, rfl⟩ := List.mem_map.mp at_top
    exact List.mem_cons_self

end

namespace Navigator

variable {σ : Type} {I : σ → Prop} {nav : Navigator (Session σ)} {root : Reference}

/-- A search enters nodes as its source hands them out, each for the name in its parent. -/
theorem find_descends {τ : Type} (loads : ∀ reference, Ensures I (nav.source reference) fun n =>
      ∀ oid, reference = root.sibling oid → handed oid n) {base : ObjectId}
    (base_eq : root.sibling base = root) (order : KeyOrder τ) (target : τ) (how : Match) {s : σ}
    (start : I s) :
    ∃ later asks entered result,
      (nav.find order root target how).perform s = (result, later) ∧
      (nav.watched.find order root target how).perform (s, []) = (result, (later, asks)) ∧
      Searched nav.maxDepth order root target how asks entered result ∧
      Descends handed base entered := by
  obtain ⟨later, asks, entered, result, run, watched, searched, -⟩ :=
    perform_find nav order root target how s
  have answered := ((find_asked watched).answered loads start).2
  exact ⟨later, asks, entered, result, run, watched, searched,
    searched.descends base_eq fun oid n asked => answered _ asked n rfl oid rfl⟩

theorem walk_descends {ρ : Type} (loads : ∀ reference, Ensures I (nav.source reference) fun n =>
      ∀ oid, reference = root.sibling oid → handed oid n) {base : ObjectId}
    (base_eq : root.sibling base = root) (visit : Bytes → Bytes → Session ρ Unit) {s : σ}
    (start : I s) (own : ρ) :
    ∃ later asks nodes records result final,
      (nav.walkWith root visit).perform (s, own) = (result, (later, final)) ∧
      (nav.watched.walkWith root visit).perform ((s, []), own) = (result, ((later, asks), final)) ∧
      Walked nav.maxDepth visit root own asks nodes records result final ∧
      Descends handed base nodes := by
  obtain ⟨later, asks, nodes, records, result, final, run, watched, walked, -⟩ :=
    perform_walk nav root visit s own
  have answered := ((walk_asked watched).answered loads start).2
  exact ⟨later, asks, nodes, records, result, final, run, watched, walked,
    walked.descends base_eq fun oid n asked => answered _ asked n rfl oid rfl⟩

theorem perform_walk_empty {ρ : Type} {top : Loaded} {s later : σ}
    (asked : (nav.source root).perform s = (.ok top, later)) (is_root : top.node.isRoot = true)
    (leaf : top.node.level = 0) (empty : top.node.keyCount = 0)
    (visit : Bytes → Bytes → Session ρ Unit) (own : ρ) :
    (nav.walkWith root visit).perform (s, own) = (.ok 0, (later, own)) := by
  have shallow : top.node.level ≤ nav.maxDepth := by
    rw [leaf]
    exact UInt16.zero_le
  have rooted := perform_rootNode_ok asked is_root shallow
  rw [walkWith, walk, bind_of_ok (perform_beside_rootNode rooted own), walkBelow_eq, bind_assoc,
    bind_of_ok (perform_enter List.not_mem_nil _), leaf]
  simp only [walkEntries, empty]
  rfl

end Navigator

end Tree

/-- A node of a tree as it stood at a transaction: some reading of it under its name gave it, and
a lookup of that name at that transaction leads to where it lies. -/
structure NodeAsOf (image : Bytes) (size : BlockSize) (e : ByteOrder)
    (source : BlockSource (Except StoreError)) (r : Resolver) (xid : TransactionId)
    (oid : ObjectId) (n : Tree.Loaded) : Prop where
  genuine : Genuine image size e n.address n.node
  coded : n.node.IsTreeObject
  named : n.node.object.oid = oid
  not_newer : n.node.object.xid ≤ xid
  stored : n.node.object.storage? = some .virtual
  mapped : ∃ before later after mapping, Reachable source e before ∧
    (r.readNode (.virtual oid xid)).perform before = (.ok n, later) ∧
    (r.lookupMapping oid xid).perform before = (.ok mapping, after) ∧
    mapping.isDeleted = false ∧ mapping.isEncrypted = false ∧ mapping.hasNoHeader = false ∧
    n.address = mapping.address

namespace Resolver

variable {image : Bytes} {size : BlockSize} {e : ByteOrder}
  {source : BlockSource (Except StoreError)} {r : Resolver}

theorem readNode_place {reference : Reference} {n : Tree.Loaded} {before later : Memory}
    (run : (r.readNode reference).perform before = (.ok n, later)) :
    ∃ p placed, (r.place r.lookupMapping reference).perform before = (.ok p, placed) ∧
      n.address = p.address := by
  obtain ⟨p, placed, place, run⟩ := perform_bind_ok.mp run
  obtain ⟨found, looked, -, run⟩ := perform_bind_ok.mp run
  refine ⟨p, placed, place, ?_⟩
  cases found with
  | some node =>
    obtain ⟨_, _, -, run⟩ := perform_bind_ok.mp run
    cases run
    rfl
  | none =>
    obtain ⟨node, _, -, run⟩ := perform_bind_ok.mp run
    obtain ⟨_, _, -, run⟩ := perform_bind_ok.mp run
    cases run
    rfl

theorem ensures_asOf (opened : BlockSource.ofBytes image size = .ok source)
    (reads : r.Reads source e) (xid : TransactionId) (reference : Reference) :
    Ensures (Reachable source e) (r.readNode reference) fun n =>
      ∀ oid, reference = .virtual oid xid → NodeAsOf image size e source r xid oid n := by
  intro before reached
  refine ⟨reached.readNode reads reference, ?_⟩
  rintro n ok oid rfl
  have admits : Admits image size e fun address node =>
      Genuine image size e address node ∧ node.IsTreeObject :=
    fun loaded coded => ⟨admits_genuine loaded coded, coded⟩
  have run : (r.readNode (.virtual oid xid)).perform before = (.ok n, _) := Prod.ext ok rfl
  have handed := (ensures_node_kept reads opened admits (.virtual oid xid) before
    (reached.holds opened admits)).2 n ok
  obtain ⟨not_newer, stored⟩ := virtual_of_identity handed.identified
  obtain ⟨p, placed, place, address_eq⟩ := readNode_place run
  obtain ⟨mapping, ⟨after, looked⟩, kept, plain, headed, at_mapping, -, -⟩ :=
    place_virtual_eq_ok place
  exact ⟨handed.holds.1, handed.holds.2, identityFault?_eq_none handed.identified, not_newer,
    stored, before, _, after, mapping, reached, run, looked, kept, plain, headed,
    address_eq.trans at_mapping⟩

/-- Whatever calls have been made before, a search or a walk below a virtual root enters nothing
but the nodes of the tree as it stood at the root's transaction. -/
theorem descends_as_of (opened : BlockSource.ofBytes image size = .ok source)
    (reads : r.Reads source e) {memory : Memory} (reached : Reachable source e memory)
    (oid : ObjectId) (xid : TransactionId) :
    (∀ (τ : Type) (order : Tree.KeyOrder τ) (target : τ) (how : Tree.Match),
      ∃ later asks entered result,
        (r.navigator.find order (.virtual oid xid) target how).perform memory = (result, later) ∧
        (r.navigator.watched.find order (.virtual oid xid) target how).perform (memory, [])
          = (result, (later, asks)) ∧
        Tree.Searched r.options.maxTreeDepth order (.virtual oid xid) target how asks entered
          result ∧
        Tree.Descends (NodeAsOf image size e source r xid) oid entered) ∧
    ∀ (ρ : Type) (visit : Bytes → Bytes → Session ρ Unit) (own : ρ),
      ∃ later asks nodes records result final,
        (r.navigator.walkWith (.virtual oid xid) visit).perform (memory, own)
          = (result, (later, final)) ∧
        (r.navigator.watched.walkWith (.virtual oid xid) visit).perform ((memory, []), own)
          = (result, ((later, asks), final)) ∧
        Tree.Walked r.options.maxTreeDepth visit (.virtual oid xid) own asks nodes records result
          final ∧
        Tree.Descends (NodeAsOf image size e source r xid) oid nodes := by
  have loads : ∀ reference, Ensures (Reachable source e) (r.navigator.source reference) fun n =>
      ∀ name, reference = (Reference.virtual oid xid).sibling name →
        NodeAsOf image size e source r xid name n := ensures_asOf opened reads xid
  constructor
  · intro τ order target how
    exact Tree.Navigator.find_descends loads rfl order target how reached
  · intro ρ visit own
    exact Tree.Navigator.walk_descends loads rfl visit reached own

end Resolver

namespace ContainerDraft

def rerooted : ContainerDraft :=
  ((blank .little).addObject ⟨1024, 3, TypeWord.tree, 0⟩).addObject ⟨1024, 7, TypeWord.tree, 0⟩

theorem rerooted_modest : rerooted.Modest := by
  constructor <;> decide

theorem rerooted_early : rerooted.Newest 1024 5 (rerooted.objectVersion 0 (by decide)) := by
  constructor <;> decide

end ContainerDraft

namespace Resolver

/-- Between two versions of a root, a walk enters the earlier one. -/
theorem descends_as_of_rerooted : ∃ built contents size source c later n,
    ContainerDraft.rerooted.build = .ok built ∧ built.image.toSource = .ok source ∧
      (Container.openAt source.remembered 0 .standard).perform (.fresh .standard)
        = (.ok c, later) ∧
      ((c.resolver.navigator.walkWith (.virtual 1024 5) Tree.collect).perform
        (.fresh .uncached, [])).1 = .ok 0 ∧
      NodeAsOf contents size c.resolver.order source c.resolver 5 1024 n := by
  obtain ⟨p, built, contents, size, source, c, later, run, shown, makes, found, bound, opens, -⟩ :=
    ContainerDraft.rerooted_modest.opens
  have legal := ContainerDraft.rerooted_modest.legal
  have order_eq : c.resolver.order = .little := bound.reads.order_eq
  have block_size : c.resolver.source.blockSize = 4096 := by
    rw [bound.reads.source_eq]
    exact (BlockSource.ofBytes_eq_ok found.opened).2.1.trans found.size_eq
  have one : c.resolver.placed 1058 4096 = pure ⟨1058, 1⟩ := by
    rw [Resolver.placed, block_size]
    rfl
  obtain ⟨address_eq, top, at_root, leaf⟩ :=
    ContainerDraft.leaf_root makes legal found (by decide)
  obtain ⟨node, sum, stored, intact, header_eq⟩ :=
    ContainerDraft.leaf_object makes legal found rfl (i := 0) (by decide) spells_root rfl rfl
  have leads := ContainerDraft.leads_newest makes legal found (by decide) bound address_eq at_root
    leaf (by decide) ContainerDraft.rerooted_early (by decide) (by decide) (by decide) one
  have identified : identityFault? (.virtual 1024 5) node.object = none := by
    have plain : TypeWord.flags TypeWord.tree = 0 := by decide
    have not_newer : (3 : TransactionId) ≤ 5 := by decide
    rw [Tree.Node.object, header_eq]
    exact identityFault_virtual rfl not_newer (virtual_of_plain plain)
  rw [← order_eq] at intact
  obtain ⟨after, read, -, -⟩ := leads.perform_bare_intact (s := .fresh .uncached) stored intact
    identified rfl
  have asked : (c.resolver.navigator.source (.virtual 1024 5)).perform (.fresh .uncached)
      = (.ok ⟨1058, node⟩, after) := read
  have is_root : node.isRoot = true := by
    rw [Tree.Node.isRoot, header_eq]
    change ((Tree.NodeHeader.rootFlag ||| Tree.NodeHeader.leafFlag)
      &&& Tree.NodeHeader.rootFlag != 0) = true
    decide
  have level_eq : node.level = 0 := by rw [Tree.Node.level, header_eq]; rfl
  have empty : node.keyCount = 0 := by rw [Tree.Node.keyCount, header_eq]; rfl
  have walked := Tree.Navigator.perform_walk_empty asked is_root level_eq empty Tree.collect []
  obtain ⟨_, asks, nodes, records, result, final, same, -, round, descends⟩ :=
    (descends_as_of found.opened ⟨bound.reads.source_eq, rfl⟩ (.fresh .uncached) 1024 5).2 _
      Tree.collect []
  have ended : result = .ok 0 := (congrArg Prod.fst (walked.symm.trans same)).symm
  cases round with
  | refused start => cases ended
  | round start round =>
    exact ⟨built, contents, size, source, c, later, _, run, shown, opens,
      congrArg Prod.fst walked, (descends _ rfl).1⟩

end Resolver

end ObjectStore
