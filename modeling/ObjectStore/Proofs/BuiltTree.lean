import ObjectStore.Proofs.TreeLevels

/-
Trees that have been built hold the entries they were built from, in their order.
-/
namespace ObjectStore

open ObjectStore.Tree

namespace TreeDraft

variable {d : TreeDraft}

structure Sound (d : TreeDraft) (p : PlannedNode) (n : BuiltNode) (node : Node) : Prop where
  oid_eq : n.oid = d.oidOf p.index
  address_eq : n.address = d.addressOf p.index
  parsed : Node.parse d.order n.bytes = .ok node
  verified : Object.verifies d.order n.bytes = true
  size_eq : n.bytes.size = d.nodeSize
  object_eq : node.object = ⟨node.object.checksum, d.oidOf p.index, d.xid,
    (if p.root then TypeWord.tree else TypeWord.treeNode) ||| d.storage.typeBits, d.subtype⟩
  carries : d.Carries node p.level p.entries
  root_eq : node.isRoot = p.root
  sizes_eq : p.root = true → node.entrySizes = some d.layout.stated

theorem readWith_stated (layout : EntryLayout) : layout.ReadWith (some layout.stated) := by
  cases layout with
  | fixed own => rfl
  | «variable» => trivial

theorem footer_stated {entries : List Entry} {count : Nat} {f : Footer}
    (made : d.footer entries count = .ok f) : EntrySizes.ofFooter f = d.layout.stated := by
  obtain ⟨nodeSize, -, made⟩ := bind_eq_ok.mp made
  cases made
  rfl

def nodeDraft (d : TreeDraft) (p : PlannedNode) (footer : Option Footer) : NodeDraft where
  order := d.order
  nodeSize := d.nodeSize
  object := ⟨0, d.oidOf p.index, d.xid,
    (if p.root then TypeWord.tree else TypeWord.treeNode) ||| d.storage.typeBits, d.subtype⟩
  level := p.level.toUInt16
  root := p.root
  layout := d.layout
  flags := 0
  footer := footer
  entries := p.entries

theorem buildNode_eq_ok {entries : List Entry} {p : PlannedNode} {n : BuiltNode}
    (built : d.buildNode entries p = .ok n) :
    ∃ footer bytes, (d.nodeDraft p footer).build = .ok bytes ∧
      (p.root = true → ∃ f, footer = some f ∧ d.footer entries (p.index + 1) = .ok f) ∧
      n = ⟨d.oidOf p.index, d.addressOf p.index, p.level, bytes⟩ := by
  unfold buildNode at built
  dsimp only at built
  cases is_root : p.root with
  | true =>
    rw [is_root, if_pos rfl, if_pos rfl] at built
    obtain ⟨footer, footer_eq, built⟩ := bind_eq_ok.mp built
    obtain ⟨bytes, bytes_eq, same⟩ := bind_eq_ok.mp built
    obtain ⟨f, made, is_some⟩ := map_eq_ok.mp footer_eq
    cases same
    refine ⟨footer, bytes, ?_, fun _ => ⟨f, is_some.symm, made⟩, rfl⟩
    rw [nodeDraft, is_root, if_pos rfl]
    exact mapError_eq_ok.mp bytes_eq
  | false =>
    rw [is_root, if_neg Bool.false_ne_true, if_neg Bool.false_ne_true] at built
    obtain ⟨footer, none_there, built⟩ := bind_eq_ok.mp built
    cases none_there
    obtain ⟨bytes, bytes_eq, same⟩ := bind_eq_ok.mp built
    cases same
    refine ⟨none, bytes, ?_, fun not_root => absurd not_root Bool.false_ne_true, rfl⟩
    rw [nodeDraft, is_root, if_neg Bool.false_ne_true]
    exact mapError_eq_ok.mp bytes_eq

/-- A root is built with the footer of its tree. -/
theorem footer_of_reads {entries : List Entry} {p : PlannedNode} {footer : Option Footer}
    {bytes : Bytes} {node : Node} (read : (d.nodeDraft p footer).Reads bytes node)
    (root_footer : p.root = true →
      ∃ f, footer = some f ∧ d.footer entries (p.index + 1) = .ok f) (is_root : p.root = true) :
    ∃ f, node.footer = some f ∧ d.footer entries (p.index + 1) = .ok f := by
  obtain ⟨f, is_footer, node_footer⟩ := read.footer_eq is_root
  obtain ⟨given, footer_eq, made⟩ := root_footer is_root
  rcases is_footer with here | ⟨none_there, -⟩
  · have same : some given = some f := footer_eq.symm.trans here
    cases same
    exact ⟨_, node_footer, made⟩
  · have absurd_here : some given = none := footer_eq.symm.trans none_there
    cases absurd_here

theorem buildNode_sound {entries : List Entry} {p : PlannedNode} {n : BuiltNode}
    (built : d.buildNode entries p = .ok n) (small : d.nodeSize ≤ NodeDraft.largestNode)
    (low : p.level < 65536) : ∃ node, Sound d p n node := by
  obtain ⟨footer, bytes, bytes_eq, root_footer, same⟩ := buildNode_eq_ok built
  obtain ⟨node, read⟩ := NodeDraft.build_reads bytes_eq UInt16.zero_and small
  have level_eq : node.level.toNat = p.level := by
    rw [read.level_eq]
    exact Nat.mod_eq_of_lt low
  have sized := readWith_stated d.layout
  subst same
  refine ⟨node, rfl, rfl, read.parsed, read.verified, read.size_eq, read.object_eq,
    ⟨read.order_eq, level_eq, read.keyCount_eq, read.key_eq _ sized, read.value_eq _ sized⟩,
    read.root_eq, fun is_root => ?_⟩
  obtain ⟨f, node_footer, made⟩ := footer_of_reads read root_footer is_root
  rw [Node.entrySizes, node_footer, Option.map_some, footer_stated made]

theorem buildNode_succeeds (entries : List Entry) {p : PlannedNode}
    (small : d.nodeSize ≤ NodeDraft.largestNode)
    (lengths : ∀ footer, ∀ entry ∈ p.entries, ∀ index,
      (d.nodeDraft p footer).checkLengths index entry = .ok ())
    (room : NodeHeader.size + p.entries.length * d.layout.slotSize + Entry.keyBytes p.entries +
      Entry.valueBytes p.entries + (if p.root then Footer.size else 0) ≤ d.nodeSize) :
    ∃ n, d.buildNode entries p = .ok n := by
  have word : UInt32.size = 4294967296 := rfl
  have limit : NodeDraft.largestNode = 65536 := rfl
  obtain ⟨f, footer_eq⟩ : ∃ f, d.footer entries (p.index + 1) = .ok f := by
    rw [footer, NodeDraft.fit32_of_lt (by omega)]
    exact ⟨_, rfl⟩
  unfold buildNode
  dsimp only
  cases is_root : p.root with
  | true =>
    obtain ⟨bytes, built⟩ := NodeDraft.build_succeeds (d := d.nodeDraft p (some f)) small
      (lengths _) room fun _ => ⟨f, .inl rfl⟩
    rw [nodeDraft, is_root, if_pos rfl] at built
    rw [if_pos rfl, if_pos rfl, footer_eq]
    exact ⟨_, bind_eq_ok.mpr ⟨some f, rfl, bind_eq_ok.mpr ⟨bytes, by rw [built]; rfl, rfl⟩⟩⟩
  | false =>
    obtain ⟨bytes, built⟩ := NodeDraft.build_succeeds (d := d.nodeDraft p none) small
      (lengths _) room fun not_root => absurd (is_root.symm.trans not_root) Bool.false_ne_true
    rw [nodeDraft, is_root, if_neg Bool.false_ne_true] at built
    rw [if_neg Bool.false_ne_true, if_neg Bool.false_ne_true]
    exact ⟨_, bind_eq_ok.mpr ⟨none, rfl, bind_eq_ok.mpr ⟨bytes, by rw [built]; rfl, rfl⟩⟩⟩

/-- A node of a tree with fixed slots is built if its entries have the lengths of the tree and
leave room for a footer. -/
theorem buildNode_fixed (entries : List Entry) {p : PlannedNode} {sizes : EntrySizes}
    (fixed : d.layout = .fixed sizes) (small : d.nodeSize ≤ NodeDraft.largestNode)
    (low : p.level < 65536)
    (lengths : ∀ entry ∈ p.entries, entry.1.size = sizes.key.toNat ∧
      entry.2.size = (sizes.valueIn (p.level == 0)).toNat)
    (room : NodeHeader.size + p.entries.length * 4 + p.entries.length * sizes.key.toNat +
      p.entries.length * (sizes.valueIn (p.level == 0)).toNat + Footer.size ≤ d.nodeSize) :
    ∃ n, d.buildNode entries p = .ok n := by
  have keys : Entry.keyBytes p.entries = p.entries.length * sizes.key.toNat := by
    rw [Entry.keyBytes_eq_total, total_const (n := sizes.key.toNat), List.length_map]
    intro part mem
    obtain ⟨entry, inside, same⟩ := List.mem_map.mp mem
    rw [← same, (lengths entry inside).1]
  have values : Entry.valueBytes p.entries
      = p.entries.length * (sizes.valueIn (p.level == 0)).toNat := by
    rw [Entry.valueBytes_eq_total, total_const (n := (sizes.valueIn (p.level == 0)).toNat),
      List.length_map]
    intro part mem
    obtain ⟨entry, inside, same⟩ := List.mem_map.mp mem
    rw [← same, (lengths entry inside).2]
  have leaf : ∀ footer, (d.nodeDraft p footer).isLeaf = (p.level == 0) := by
    intro footer
    have level_eq : p.level.toUInt16.toNat = p.level := Nat.mod_eq_of_lt low
    rw [Bool.eq_iff_iff, NodeDraft.isLeaf, nodeDraft, beq_iff_eq, beq_iff_eq, ← UInt16.toNat_inj,
      level_eq]
    rfl
  refine buildNode_succeeds entries small (fun footer entry mem index => ?_) ?_
  · apply (NodeDraft.checkLengths_eq_ok (d := d.nodeDraft p footer) fixed).mpr
    rw [leaf]
    exact lengths entry mem
  · have slots : d.layout.slotSize = 4 := by rw [fixed]; rfl
    rw [keys, values, slots]
    split <;> omega

def plan (d : TreeDraft) (wide : 2 ≤ d.fanout) (entries : List Entry) :
    List PlannedNode × PlannedNode :=
  d.planFrom wide 0 0 (d.leafGroups entries)

variable {entries : List Entry} {t : BuiltTree}

theorem build_eq_ok (built : d.build entries = .ok t) : ∃ wide : 2 ≤ d.fanout,
    (d.plan wide entries).1.mapM (d.buildNode entries) = .ok t.below ∧
      d.buildNode entries (d.plan wide entries).2 = .ok t.root ∧ t.storage = d.storage := by
  unfold build at built
  split at built
  · rename_i wide
    obtain ⟨below, below_eq, built⟩ := bind_eq_ok.mp built
    obtain ⟨top, top_eq, same⟩ := bind_eq_ok.mp built
    cases same
    exact ⟨wide, below_eq, top_eq, rfl⟩
  · cases built

theorem build_succeeds (wide : 2 ≤ d.fanout) (entries : List Entry)
    (each : ∀ p ∈ (d.plan wide entries).1 ++ [(d.plan wide entries).2],
      ∃ n, d.buildNode entries p = .ok n) : ∃ t, d.build entries = .ok t := by
  obtain ⟨below, below_eq⟩ := mapM_succeeds (l := (d.plan wide entries).1) fun p mem =>
    each p (List.mem_append_left _ mem)
  obtain ⟨top, top_eq⟩ := each (d.plan wide entries).2
    (List.mem_append_right _ (List.mem_singleton_self _))
  rw [plan] at below_eq top_eq
  refine ⟨⟨d.storage, below, top⟩, ?_⟩
  rw [build, dif_pos wide]
  dsimp only
  rw [below_eq, ok_bind, top_eq]
  rfl

/-- The nodes of a tree are those planned, in the same order. -/
theorem buildNode_of_build (built : d.build entries = .ok t) : ∃ wide : 2 ≤ d.fanout,
    t.nodes.length = ((d.plan wide entries).1 ++ [(d.plan wide entries).2]).length ∧
      ∀ i (h : i < ((d.plan wide entries).1 ++ [(d.plan wide entries).2]).length)
        (h' : i < t.nodes.length),
        d.buildNode entries ((d.plan wide entries).1 ++ [(d.plan wide entries).2])[i]
          = .ok t.nodes[i] := by
  obtain ⟨wide, below, top, -⟩ := build_eq_ok built
  obtain ⟨length_eq, each⟩ := mapM_eq_ok below
  refine ⟨wide, by simp [BuiltTree.nodes, length_eq], fun i h h' => ?_⟩
  simp only [BuiltTree.nodes]
  rcases Nat.lt_or_ge i (d.plan wide entries).1.length with inside | last
  · rw [List.getElem_append_left inside, List.getElem_append_left (by omega)]
    exact each i inside (by omega)
  · rw [List.getElem_append_right last, List.getElem_append_right (by omega)]
    simpa using top

theorem index_plan (wide : 2 ≤ d.fanout) (entries : List Entry) {i : Nat}
    (h : i < ((d.plan wide entries).1 ++ [(d.plan wide entries).2]).length) :
    ((d.plan wide entries).1 ++ [(d.plan wide entries).2])[i].index = i := by
  have indices := d.index_planFrom wide 0 0 (d.leafGroups entries)
  have at_i := congrArg (·[i]?) indices
  simp only [plan] at h ⊢
  rw [List.getElem?_eq_getElem (by simpa using h), List.getElem?_eq_getElem (by simpa using h),
    List.getElem_map, List.getElem_range'] at at_i
  simpa using at_i

theorem length_leafGroups (wide : 2 ≤ d.fanout) (level next : Nat) (groups : List (List Entry)) :
    groups.length ≤ (d.planFrom wide level next groups).1.length + 1 := by
  by_cases one : groups.length ≤ 1
  · omega
  · rcases upper : d.planFrom wide (level + 1) (next + groups.length)
      (chunks d.fanout ((planLevel level next groups).map d.pointerTo)) with ⟨above, top⟩
    rw [d.planFrom_more wide one upper, List.length_append, length_planLevel]
    omega

theorem level_of_build (built : d.build entries = .ok t) (wide : 2 ≤ d.fanout) (n : Nat)
    (few : t.nodes.length ≤ reach n) {p : PlannedNode}
    (mem : p ∈ (d.plan wide entries).1 ++ [(d.plan wide entries).2]) : p.level ≤ n := by
  obtain ⟨_, length_eq, -⟩ := buildNode_of_build built
  have groups := length_leafGroups wide 0 0 (d.leafGroups entries)
  have levels := d.level_planFrom wide n 0 0 (d.leafGroups entries)
    (by rw [List.length_append, plan] at length_eq; simp at length_eq; omega)
  rw [Nat.zero_add] at levels
  rcases List.mem_append.mp mem with below | top
  · exact levels.1 p below
  · rw [List.mem_singleton.mp top]
    exact levels.2

/-- A tree whose nodes all have an address has levels that fit into a word of two bytes. -/
theorem sound_of_build (built : d.build entries = .ok t)
    (small : d.nodeSize ≤ NodeDraft.largestNode) (few : t.nodes.length ≤ UInt64.size)
    (wide : 2 ≤ d.fanout) {i : Nat}
    (h : i < ((d.plan wide entries).1 ++ [(d.plan wide entries).2]).length)
    (h' : i < t.nodes.length) :
    ∃ node, Sound d ((d.plan wide entries).1 ++ [(d.plan wide entries).2])[i] t.nodes[i] node := by
  obtain ⟨_, length_eq, each⟩ := buildNode_of_build built
  have limit : reach 64 = UInt64.size := rfl
  have level := level_of_build built wide 64 (by omega) (List.getElem_mem h)
  exact buildNode_sound (each i h h') small (by omega)

theorem offset_inj {base : UInt64} {i j : Nat} (hi : i < UInt64.size) (hj : j < UInt64.size)
    (same : base + i.toUInt64 = base + j.toUInt64) : i = j := by
  have limit : UInt64.size = 18446744073709551616 := rfl
  have words := congrArg UInt64.toNat same
  have left : i.toUInt64.toNat = i := Nat.mod_eq_of_lt (by omega)
  have right : j.toUInt64.toNat = j := Nat.mod_eq_of_lt (by omega)
  simp only [UInt64.toNat_add, left, right] at words
  have := base.toNat_lt
  omega

theorem addressOf_inj {i j : Nat} (hi : i < UInt64.size) (hj : j < UInt64.size)
    (same : d.addressOf i = d.addressOf j) : i = j :=
  offset_inj hi hj same

theorem oidOf_inj {i j : Nat} (hi : i < UInt64.size) (hj : j < UInt64.size)
    (same : d.oidOf i = d.oidOf j) : i = j := by
  cases storage : d.storage <;> rw [oidOf, oidOf, storage] at same <;> exact offset_inj hi hj same

theorem address_of_build {entries : List Entry} (built : d.build entries = .ok t) {i : Nat}
    (h : i < t.nodes.length) : t.nodes[i].address = d.addressOf i ∧ t.nodes[i].oid = d.oidOf i := by
  obtain ⟨wide, length_eq, each⟩ := buildNode_of_build built
  have index := index_plan (d := d) wide entries (i := i) (by omega)
  obtain ⟨_, _, -, -, same⟩ := buildNode_eq_ok (each i (by omega) h)
  rw [same, index]
  exact ⟨rfl, rfl⟩

/-- What differs from number to number differs from node to node. -/
theorem nodup_of_build {α : Type} (few : t.nodes.length ≤ UInt64.size) {f : BuiltNode → α}
    {g : Nat → α}
    (at_place : ∀ i (h : i < t.nodes.length), f t.nodes[i] = g i)
    (inj : ∀ {i j}, i < UInt64.size → j < UInt64.size → g i = g j → i = j) :
    (t.nodes.map f).Nodup := by
  rw [List.nodup_iff_pairwise_ne, List.pairwise_iff_getElem]
  intro i j hi hj before same
  rw [List.length_map] at hi hj
  rw [List.getElem_map, List.getElem_map, at_place i hi, at_place j hj] at same
  have := inj (by omega) (by omega) same
  omega

theorem addresses_nodup {entries : List Entry} (built : d.build entries = .ok t)
    (few : t.nodes.length ≤ UInt64.size) : (t.nodes.map BuiltNode.address).Nodup :=
  nodup_of_build few (fun _ h => (address_of_build built h).1) addressOf_inj

theorem oids_nodup {entries : List Entry} (built : d.build entries = .ok t)
    (few : t.nodes.length ≤ UInt64.size) : (t.nodes.map BuiltNode.oid).Nodup :=
  nodup_of_build few (fun _ h => (address_of_build built h).2) oidOf_inj

/-- The root has the last number. -/
theorem top_of_build (built : d.build entries = .ok t) (wide : 2 ≤ d.fanout) :
    (d.plan wide entries).2.index + 1 = t.nodes.length := by
  obtain ⟨_, length_eq, -⟩ := buildNode_of_build built
  have at_end := index_plan wide entries (i := (d.plan wide entries).1.length) (by simp)
  rw [List.getElem_concat_length rfl] at at_end
  rw [List.length_append, List.length_singleton] at length_eq
  omega

/-- Nodes with different numbers stand at different addresses. -/
theorem nodup_addressOf {top : Nat} {below : List Nat} (limited : top < UInt64.size)
    (nodup : below.Nodup) (earlier : ∀ i ∈ below, i < top) :
    ((top :: below).map d.addressOf).Nodup := by
  have bounded : ∀ i ∈ top :: below, i < UInt64.size := by
    intro i mem
    rcases List.mem_cons.mp mem with same | lower
    · omega
    · have := earlier i lower
      omega
  have different : (top :: below).Nodup :=
    List.nodup_cons.mpr ⟨fun mem => Nat.lt_irrefl _ (earlier _ mem), nodup⟩
  apply List.pairwise_map.mpr
  apply different.imp_of_mem
  intro i j hi hj apart same
  exact apart (addressOf_inj (bounded i hi) (bounded j hj) same)

theorem size_of_build {entries : List Entry} (built : d.build entries = .ok t)
    (small : d.nodeSize ≤ NodeDraft.largestNode) {n : BuiltNode} (mem : n ∈ t.nodes) :
    n.bytes.size = d.nodeSize := by
  obtain ⟨wide, length_eq, each⟩ := buildNode_of_build built
  obtain ⟨i, h, same⟩ := List.getElem_of_mem mem
  obtain ⟨footer, bytes, made, -, node_eq⟩ := buildNode_eq_ok (each i (by omega) h)
  obtain ⟨node, read⟩ := NodeDraft.build_reads made UInt16.zero_and small
  rw [← same, node_eq]
  exact read.size_eq

section Grown

variable {τ : Type} {order : KeyOrder τ} {view : KeyView order}
  {reads : Reference → Loaded → Prop} {root : Reference} {pairs : List (Entry × τ)}

theorem Sound.served {p : PlannedNode} {n : BuiltNode} {node : Node} (sound : Sound d p n node)
    (below : p.root = false) (reading : reads (root.sibling n.oid) ⟨n.address, node⟩) :
    Served reads root d p node where
  carries := sound.carries
  not_root := by rw [sound.root_eq, below]
  served := by
    rw [← sound.oid_eq, ← sound.address_eq]
    exact reading

theorem root_of_plan (wide : 2 ≤ d.fanout) (level next : Nat) (groups : List (List Entry)) :
    (∀ p ∈ (d.planFrom wide level next groups).1, p.root = false) ∧
      (d.planFrom wide level next groups).2.root = true := by
  induction level, next, groups using planFrom.induct d wide with
  | case1 level next groups one =>
    rw [d.planFrom_one wide one]
    exact ⟨by simp, rfl⟩
  | case2 level next groups many here above top upper ih =>
    rw [upper] at ih
    rw [d.planFrom_more wide many upper]
    refine ⟨fun p mem => ?_, ih.2⟩
    rcases List.mem_append.mp mem with level_node | higher
    · simp only [planLevel, List.mem_map] at level_node
      obtain ⟨_, -, same⟩ := level_node
      rw [← same]
    · exact ih.1 p higher

/-- What a root that carries its plan has below it. -/
theorem root_grown (wide : 2 ≤ d.fanout)
    (decodes : ∀ pair ∈ pairs, view.decode d.order pair.1.1 = .ok pair.2)
    (served : ∀ p ∈ (d.plan wide (pairs.map Prod.fst)).1,
      ∃ node, Served reads root d p node) {node : Node}
    (carries : d.Carries node (d.plan wide (pairs.map Prod.fst)).2.level
      (d.plan wide (pairs.map Prod.fst)).2.entries) :
    ∃ records : List (Record τ), ∃ below : List Nat,
      Grown reads view root (some d.layout.stated) (d.plan wide (pairs.map Prod.fst)).2.level
        ⟨d.addressOf (d.plan wide (pairs.map Prod.fst)).2.index, node⟩ records
        (((d.plan wide (pairs.map Prod.fst)).2.index :: below).map d.addressOf) ∧
      records.map (fun r => (((r.found.key, r.found.value) : Entry), r.key)) = pairs ∧
      below.Nodup ∧ ∀ i ∈ below, i < (d.plan wide (pairs.map Prod.fst)).2.index := by
  cases pairs with
  | nil =>
    have single : d.plan wide [] = ([], ⟨0, 0, true, []⟩) := by
      rw [plan, leafGroups]
      exact d.planFrom_one wide (by simp)
    rw [List.map_nil, single] at carries ⊢
    refine ⟨[], [], ⟨rfl, carries.keyCount_eq, fun i h => absurd h (by simp)⟩, rfl, List.nodup_nil,
      by simp⟩
  | cons pair rest =>
    have groups : d.leafGroups ((pair :: rest).map Prod.fst)
        = chunks d.fanout ((pair :: rest).map Prod.fst) := rfl
    have planned := leafItems_planned d (pair :: rest)
    rw [← groups] at planned
    have no_below := leafItems_below d (pair :: rest)
    obtain ⟨part, held_top, records_eq, nodup, earlier⟩ := planFrom_held wide 0 0
      (d.leafGroups ((pair :: rest).map Prod.fst))
      (by rw [groups]; exact chunks_ne_nil _ (by simp)) (leafItems d (pair :: rest)) planned
      (leafItems_held decodes)
      (by rw [no_below]; exact List.nodup_nil) (by rw [no_below]; simp) served
    refine ⟨part.records, part.below, held_top.grown node carries, ?_, nodup, earlier⟩
    rw [records_eq, leafItems_records]

variable (view reads) in
/-- A tree that has been built has all its records below its root, under whatever reads its
nodes. -/
theorem grown_of_build (built : d.build (pairs.map Prod.fst) = .ok t)
    (small : d.nodeSize ≤ NodeDraft.largestNode) (few : t.nodes.length ≤ UInt64.size)
    (decodes : ∀ pair ∈ pairs, view.decode d.order pair.1.1 = .ok pair.2)
    (at_root : root.sibling t.root.oid = root)
    (reading : ∀ n ∈ t.nodes, ∀ p node, Sound d p n node →
      reads (root.sibling n.oid) ⟨n.address, node⟩) :
    ∃ (wide : 2 ≤ d.fanout) (node : Node) (records : List (Record τ)) (blocks : List BlockAddress),
      Sound d (d.plan wide (pairs.map Prod.fst)).2 t.root node ∧ node.isRoot = true ∧
      reads root ⟨t.root.address, node⟩ ∧
      Grown reads view root node.entrySizes node.level.toNat ⟨t.root.address, node⟩ records blocks ∧
      blocks.Nodup ∧
      records.map (fun r => (((r.found.key, r.found.value) : Entry), r.key)) = pairs := by
  obtain ⟨wide, -, top_eq, -⟩ := build_eq_ok built
  obtain ⟨_, length_eq, -⟩ := buildNode_of_build built
  obtain ⟨not_roots, is_root⟩ := root_of_plan (d := d) wide 0 0
    (d.leafGroups (pairs.map Prod.fst))
  have last := List.mem_append_right (d.plan wide (pairs.map Prod.fst)).1
    (List.mem_singleton_self (d.plan wide (pairs.map Prod.fst)).2)
  have limit : reach 64 = UInt64.size := rfl
  have low := level_of_build built wide 64 (by omega) last
  obtain ⟨node, sound⟩ := buildNode_sound top_eq small (by omega)
  have served : ∀ p ∈ (d.plan wide (pairs.map Prod.fst)).1,
      ∃ node, Served reads root d p node := by
    intro p mem
    obtain ⟨i, h, same⟩ := List.getElem_of_mem (List.mem_append_left
      [(d.plan wide (pairs.map Prod.fst)).2] mem)
    obtain ⟨node, sound⟩ := sound_of_build built small few wide h (by omega)
    rw [same] at sound
    exact ⟨node, sound.served (not_roots p mem) (reading _ (List.getElem_mem _) p node sound)⟩
  obtain ⟨records, below, grown, records_eq, nodup, earlier⟩ :=
    root_grown wide decodes served sound.carries
  have inTree : t.root ∈ t.nodes := List.mem_append_right _ (List.mem_singleton_self _)
  have reading_top := reading t.root inTree _ node sound
  have top_index := top_of_build built wide
  rw [at_root] at reading_top
  have distinct : (((d.plan wide (pairs.map Prod.fst)).2.index :: below).map d.addressOf).Nodup :=
    nodup_addressOf (by omega) nodup earlier
  refine ⟨wide, node, records, _, sound, sound.root_eq.trans is_root, reading_top, ?_, distinct,
    records_eq⟩
  rw [sound.sizes_eq is_root, sound.carries.level_eq, sound.address_eq]
  exact grown

def nodeLimit : Nat := 65536

/-- A tree that has been built is found with all its records under whatever reads its nodes. -/
theorem build_grown (built : d.build (pairs.map Prod.fst) = .ok t)
    (small : d.nodeSize ≤ NodeDraft.largestNode) (few : t.nodes.length ≤ nodeLimit)
    (decodes : ∀ pair ∈ pairs, view.decode d.order pair.1.1 = .ok pair.2)
    (ascending : view.Ascending (pairs.map Prod.snd)) (at_root : root.sibling t.root.oid = root)
    (reading : ∀ n ∈ t.nodes, ∀ p node, Sound d p n node →
      reads (root.sibling n.oid) ⟨n.address, node⟩)
    {maxDepth : UInt16} (deep : standardDepth ≤ maxDepth) :
    ∃ top records blocks, GrownTree reads view root maxDepth top records blocks ∧
      records.map (fun r => (((r.found.key, r.found.value) : Entry), r.key)) = pairs := by
  have limit : reach 16 = nodeLimit := rfl
  have words : nodeLimit ≤ UInt64.size := by decide
  obtain ⟨wide, node, records, blocks, sound, is_root, reading_top, grown, nodup, records_eq⟩ :=
    grown_of_build view reads built small (Nat.le_trans few words) decodes at_root reading
  have low := level_of_build built wide 16 (by omega)
    (List.mem_append_right _ (List.mem_singleton_self _))
  have level_eq := sound.carries.level_eq
  refine ⟨_, records, blocks, ⟨reading_top, is_root, ?_, grown, nodup, ?_⟩, records_eq⟩
  · have bound : standardDepth.toNat = 16 := rfl
    have := UInt16.le_iff_toNat_le.mp deep
    apply UInt16.le_iff_toNat_le.mpr
    dsimp only
    omega
  · rw [← records_eq, List.map_map] at ascending
    exact ascending

end Grown

end TreeDraft

end ObjectStore
