import ObjectStore.Proofs.BuiltTree

/-
The shape of trees that have been built: which nodes there are, in which order and of which
size, and where the entries of the index nodes lead.
-/
namespace ObjectStore

open ObjectStore.Tree

theorem length_of_mem_chunks {α : Type} {n : Nat} (some_room : 1 ≤ n) {l c : List α}
    (mem : c ∈ chunks n l) : c.length ≤ n := by
  induction l using chunks.induct n with
  | case1 => simp [chunks] at mem
  | case2 a rest ih =>
    unfold chunks at mem
    rcases List.mem_cons.mp mem with here | there
    · subst here
      rw [List.length_cons, List.length_take]
      omega
    · exact ih there

namespace TreeDraft

variable {d : TreeDraft}

/-- A planned index node stands above planned nodes of the level below, all of which come before
it. -/
structure Above (d : TreeDraft) (below : List PlannedNode) (p : PlannedNode)
    (children : List PlannedNode) : Prop where
  some_there : children ≠ []
  few : children.length ≤ d.fanout
  entries_eq : p.entries = children.map d.pointerTo
  planned : ∀ c ∈ children, c ∈ below ∧ c.level + 1 = p.level ∧ c.index < p.index

theorem mem_planLevel {level next : Nat} {groups : List (List Entry)} {p : PlannedNode}
    (mem : p ∈ planLevel level next groups) :
    p.level = level ∧ p.entries ∈ groups ∧ p.index < next + groups.length := by
  simp only [planLevel, List.mem_map] at mem
  obtain ⟨⟨group, i⟩, inside, rfl⟩ := mem
  have lt := List.snd_lt_of_mem_zipIdx inside
  exact ⟨rfl, List.fst_mem_of_mem_zipIdx inside, by simpa using lt⟩

theorem index_ge (wide : 2 ≤ d.fanout) {level next : Nat} {groups : List (List Entry)}
    {p : PlannedNode}
    (mem : p ∈ (d.planFrom wide level next groups).1 ++ [(d.planFrom wide level next groups).2]) :
    next ≤ p.index := by
  have inside := List.mem_map_of_mem (f := PlannedNode.index) mem
  rw [d.index_planFrom wide level next groups] at inside
  exact (List.mem_range'_1.mp inside).1

/-- Every planned node has one of the groups of the lowest level, or stands above others. -/
theorem planFrom_above (wide : 2 ≤ d.fanout) (level next : Nat) (groups : List (List Entry))
    (some_there : groups ≠ []) :
    ∀ p ∈ (d.planFrom wide level next groups).1 ++ [(d.planFrom wide level next groups).2],
      (p.level = level ∧ p.entries ∈ groups) ∨
        ∃ children, Above d (d.planFrom wide level next groups).1 p children := by
  induction level, next, groups using planFrom.induct d wide with
  | case1 level next groups one =>
    intro p mem
    rw [d.planFrom_one wide one] at mem
    have same : p = ⟨next, level, true, groups.headD []⟩ := by simpa using mem
    obtain ⟨first, rest, rfl⟩ := List.exists_cons_of_ne_nil some_there
    subst same
    exact .inl ⟨rfl, List.mem_cons_self⟩
  | case2 level next groups many here above top upper ih =>
    intro p mem
    have some_chunk := chunks_planLevel_ne_nil d level next some_there
    have later := ih some_chunk
    have beyond := @index_ge d wide (level + 1) (next + groups.length)
      (chunks d.fanout (here.map d.pointerTo))
    rw [upper] at later beyond
    rw [d.planFrom_more wide many upper] at mem ⊢
    rw [List.append_assoc] at mem
    rcases List.mem_append.mp mem with level_node | higher
    · obtain ⟨level_eq, inGroups, -⟩ := mem_planLevel level_node
      exact .inl ⟨level_eq, inGroups⟩
    · right
      rcases later p higher with ⟨level_eq, inChunks⟩ | ⟨children, stands⟩
      · rw [chunks_map] at inChunks
        obtain ⟨chunk, inHere, entries_eq⟩ := List.mem_map.mp inChunks
        refine ⟨chunk, ne_nil_of_mem_chunks _ inHere, length_of_mem_chunks (by omega) inHere,
          entries_eq.symm, fun c mem => ?_⟩
        have inLevel := mem_of_mem_chunks _ inHere mem
        obtain ⟨c_level, -, c_index⟩ := mem_planLevel inLevel
        have after := beyond higher
        exact ⟨List.mem_append_left _ inLevel, by omega, by omega⟩
      · exact ⟨children, stands.some_there, stands.few, stands.entries_eq, fun c mem =>
          ⟨List.mem_append_right _ (stands.planned c mem).1, (stands.planned c mem).2⟩⟩

section Plan

variable {entries : List Entry} (wide : 2 ≤ d.fanout)

theorem leafGroups_ne_nil (d : TreeDraft) (entries : List Entry) : d.leafGroups entries ≠ [] := by
  unfold leafGroups
  split
  · simp
  · rename_i some_there
    exact chunks_ne_nil _ (by simpa using some_there)

theorem plan_above {p : PlannedNode}
    (mem : p ∈ (d.plan wide entries).1 ++ [(d.plan wide entries).2]) :
    (p.level = 0 ∧ p.entries ∈ d.leafGroups entries) ∨
      ∃ children, Above d (d.plan wide entries).1 p children :=
  planFrom_above wide 0 0 _ (leafGroups_ne_nil d entries) p mem

theorem plan_narrow {p : PlannedNode}
    (mem : p ∈ (d.plan wide entries).1 ++ [(d.plan wide entries).2]) :
    p.entries.length ≤ d.fanout := by
  rcases plan_above wide mem with ⟨-, inGroups⟩ | ⟨children, stands⟩
  · unfold leafGroups at inGroups
    split at inGroups
    · simp [List.mem_singleton.mp inGroups]
    · exact length_of_mem_chunks (by omega) inGroups
  · rw [stands.entries_eq, List.length_map]
    exact stands.few

/-- Only the root may be empty, and only where there are no entries at all. -/
theorem plan_filled {p : PlannedNode} (mem : p ∈ (d.plan wide entries).1) : p.entries ≠ [] := by
  rcases plan_above wide (List.mem_append_left _ mem) with ⟨-, inGroups⟩ | ⟨children, stands⟩
  · unfold leafGroups at inGroups
    split at inGroups
    · rename_i none_there
      have alone : (d.plan wide entries).1 = [] := by
        rw [plan, leafGroups, if_pos none_there, d.planFrom_one wide (by simp)]
      rw [alone] at mem
      exact absurd mem List.not_mem_nil
    · exact ne_nil_of_mem_chunks _ inGroups
  · rw [stands.entries_eq]
    simpa using stands.some_there

end Plan

/-- The key of the first record below a node, as the nodes of the tree tell it. -/
inductive FirstKey (d : TreeDraft) (t : BuiltTree) (sizes : Option EntrySizes) :
    BuiltNode → Bytes → Prop where
  | leaf {n : BuiltNode} {node : Node} {key : Bytes}
      (parsed : Node.parse d.order n.bytes = .ok node) (is_leaf : node.isLeaf = true)
      (first : node.key sizes 0 = .ok key) : FirstKey d t sizes n key
  | inner {n m : BuiltNode} {node : Node} {key : Bytes}
      (parsed : Node.parse d.order n.bytes = .ok node) (mem : m ∈ t.nodes)
      (pointer : node.child sizes 0 = .ok m.oid) (first : FirstKey d t sizes m key) :
      FirstKey d t sizes n key

/-- An entry of the index node with number `i` leads to the node with number `j`, which comes
before it and lies one level below it, under the key of the first record there. -/
structure Leads (d : TreeDraft) (t : BuiltTree) (sizes : Option EntrySizes) (i : Nat) (node : Node)
    (index j : Nat) (m : BuiltNode) (child : Node) : Prop where
  before : j < i
  at_place : t.nodes[j]? = some m
  parsed : Node.parse d.order m.bytes = .ok child
  pointer : node.child sizes index = .ok m.oid
  level_eq : child.level.toNat + 1 = node.level.toNat
  guide : ∃ key, node.key sizes index = .ok key ∧ FirstKey d t sizes m key

structure Shaped (d : TreeDraft) (t : BuiltTree) (sizes : Option EntrySizes) (i : Nat)
    (n : BuiltNode) (node : Node) : Prop where
  parsed : Node.parse d.order n.bytes = .ok node
  address_eq : n.address.toNat = d.firstAddress.toNat + i
  oid_eq : n.oid = match d.storage with
    | .physical => n.address
    | .virtual | .ephemeral => d.firstOid + i.toUInt64
  level_eq : node.level.toNat = n.level
  root_last : node.isRoot = true ↔ i + 1 = t.nodes.length
  narrow : node.keyCount ≤ d.fanout
  filled : i + 1 < t.nodes.length → 1 ≤ node.keyCount
  leads : node.isLeaf = false → ∀ index < node.keyCount, ∃ j m child,
    Leads d t sizes i node index j m child

section Shape

variable {entries : List Entry} {t : BuiltTree} (built : d.build entries = .ok t)
  (small : d.nodeSize ≤ NodeDraft.largestNode) (few : t.nodes.length ≤ UInt64.size)
  (wide : 2 ≤ d.fanout)
include built small few

theorem node_of_plan {p : PlannedNode}
    (mem : p ∈ (d.plan wide entries).1 ++ [(d.plan wide entries).2]) :
    ∃ n node, t.nodes[p.index]? = some n ∧ Sound d p n node := by
  obtain ⟨_, length_eq, -⟩ := buildNode_of_build built
  obtain ⟨i, h, same⟩ := List.getElem_of_mem mem
  have index := index_plan wide entries h
  obtain ⟨node, sound⟩ := sound_of_build built small few wide h (by omega)
  rw [same] at sound index
  exact ⟨_, node, by rw [index, List.getElem?_eq_getElem], sound⟩

omit built small few in
theorem Sound.child_eq {p c : PlannedNode} {n : BuiltNode} {node : Node} (sound : Sound d p n node)
    {index : Nat} (h : index < p.entries.length) (entry_eq : p.entries[index] = d.pointerTo c)
    (level_eq : c.level + 1 = p.level) :
    node.child (some d.layout.stated) index = .ok (d.oidOf c.index) := by
  have inner : node.level ≠ 0 := by
    intro zero
    have same := sound.carries.level_eq
    rw [zero] at same
    exact absurd same (by simp; omega)
  have value := sound.carries.value_eq index h
  rw [entry_eq] at value
  exact Node.child_of_value inner (by rw [sound.carries.order_eq]; exact value)

/-- The first key of a planned node is the first key of all the records below it. -/
theorem first_key (level : Nat) {p : PlannedNode}
    (mem : p ∈ (d.plan wide entries).1 ++ [(d.plan wide entries).2]) (level_eq : p.level = level)
    {first : Entry} {rest : List Entry} (entries_eq : p.entries = first :: rest) {n : BuiltNode}
    {node : Node} (sound : Sound d p n node) :
    FirstKey d t (some d.layout.stated) n first.1 := by
  induction level generalizing p first rest n node with
  | zero =>
    have some_here : 0 < p.entries.length := by simp [entries_eq]
    have key_eq := sound.carries.key_eq 0 some_here
    have level_zero : node.level.toNat = 0 := by rw [sound.carries.level_eq, level_eq]
    have is_leaf := Node.leaf_of_level level_zero
    exact .leaf sound.parsed is_leaf (by simpa [entries_eq] using key_eq)
  | succ level ih =>
    rcases plan_above wide mem with ⟨low, -⟩ | ⟨children, stands⟩
    · omega
    · obtain ⟨c, more, rfl⟩ := List.exists_cons_of_ne_nil stands.some_there
      obtain ⟨inPlan, c_level, -⟩ := stands.planned c List.mem_cons_self
      obtain ⟨entry, later, c_entries⟩ := List.exists_cons_of_ne_nil (plan_filled wide inPlan)
      have some_here : 0 < p.entries.length := by simp [entries_eq]
      have pointer_eq : p.entries[0] = d.pointerTo c := by simp [stands.entries_eq]
      have guide : first.1 = entry.1 := by
        have first_eq : p.entries[0] = first := by simp [entries_eq]
        rw [← first_eq, pointer_eq, pointerTo, c_entries]
        rfl
      have listed := List.mem_append_left [(d.plan wide entries).2] inPlan
      obtain ⟨m, child, at_c, below⟩ := node_of_plan built small few wide listed
      have pointer := sound.child_eq some_here pointer_eq c_level
      rw [← below.oid_eq] at pointer
      rw [guide]
      exact .inner sound.parsed (List.mem_of_getElem? at_c) pointer
        (ih listed (by omega) c_entries below)

/-- Every entry of an index node leads to the node below that it was made for. -/
theorem leads_of_above {p : PlannedNode} {n : BuiltNode} {node : Node}
    {children : List PlannedNode} (stands : Above d (d.plan wide entries).1 p children)
    (sound : Sound d p n node) {index : Nat} (h : index < node.keyCount) :
    ∃ j m child, Leads d t (some d.layout.stated) p.index node index j m child := by
  rw [sound.carries.keyCount_eq] at h
  have inside : index < children.length := by simpa [stands.entries_eq] using h
  obtain ⟨inPlan, c_level, c_index⟩ := stands.planned children[index] (List.getElem_mem inside)
  have entry_eq : p.entries[index] = d.pointerTo children[index] := by simp [stands.entries_eq]
  obtain ⟨entry, later, c_entries⟩ := List.exists_cons_of_ne_nil (plan_filled wide inPlan)
  have listed := List.mem_append_left [(d.plan wide entries).2] inPlan
  obtain ⟨m, child, at_c, below⟩ := node_of_plan built small few wide listed
  have pointer := sound.child_eq h entry_eq c_level
  rw [← below.oid_eq] at pointer
  have key_eq := sound.carries.key_eq index h
  rw [entry_eq, pointerTo, c_entries] at key_eq
  refine ⟨_, m, child, c_index, at_c, below.parsed, pointer, ?_, entry.1, key_eq,
    first_key built small few wide _ listed rfl c_entries below⟩
  rw [below.carries.level_eq, sound.carries.level_eq, c_level]

end Shape

theorem root_footer {entries : List Entry} {t : BuiltTree}
    (small : d.nodeSize ≤ NodeDraft.largestNode) {p : PlannedNode} (is_root : p.root = true)
    (made : d.buildNode entries p = .ok t.root) {top : Node}
    (parsed : Node.parse d.order t.root.bytes = .ok top) :
    ∃ f, top.footer = some f ∧ d.footer entries (p.index + 1) = .ok f := by
  obtain ⟨footer, bytes, bytes_eq, given, same⟩ := buildNode_eq_ok made
  obtain ⟨node, read⟩ := NodeDraft.build_reads bytes_eq UInt16.zero_and small
  rw [same] at parsed
  obtain rfl := Except.ok.inj (read.parsed.symm.trans parsed)
  exact footer_of_reads read given is_root

structure Counted (entries : List Entry) (t : BuiltTree) (f : Footer) : Prop where
  keyCount_eq : entries.length < UInt64.size → f.keyCount.toNat = entries.length
  nodeCount_eq : t.nodes.length < UInt64.size → f.nodeCount.toNat = t.nodes.length

theorem counted_of_footer {entries : List Entry} {t : BuiltTree} {f : Footer}
    (made : d.footer entries t.nodes.length = .ok f) : Counted entries t f := by
  obtain ⟨nodeSize, -, same⟩ := bind_eq_ok.mp made
  cases same
  exact ⟨fun few => Nat.mod_eq_of_lt few, fun few => Nat.mod_eq_of_lt few⟩

theorem toNat_addressOf {i : Nat} (room : d.firstAddress.toNat + i < UInt64.size) :
    (d.addressOf i).toNat = d.firstAddress.toNat + i := by
  have limit : UInt64.size = 18446744073709551616 := rfl
  have word : i.toUInt64.toNat = i := Nat.mod_eq_of_lt (by omega)
  rw [addressOf, UInt64.toNat_add, word]
  exact Nat.mod_eq_of_lt room

/-- A planned node is the last exactly if it is the root. -/
theorem plan_place (wide : 2 ≤ d.fanout) {entries : List Entry} {i : Nat}
    (h : i < ((d.plan wide entries).1 ++ [(d.plan wide entries).2]).length) :
    let p := ((d.plan wide entries).1 ++ [(d.plan wide entries).2])[i]
    (p ∈ (d.plan wide entries).1 ∧ p.root = false ∧ i < (d.plan wide entries).1.length) ∨
      (p.root = true ∧ i = (d.plan wide entries).1.length) := by
  obtain ⟨not_roots, is_root⟩ := root_of_plan (d := d) wide 0 0 (d.leafGroups entries)
  dsimp only
  rcases Nat.lt_or_ge i (d.plan wide entries).1.length with before | last
  · rw [List.getElem_append_left before]
    exact .inl ⟨List.getElem_mem _, not_roots _ (List.getElem_mem _), before⟩
  · have at_end : i = (d.plan wide entries).1.length := by
      rw [List.length_append, List.length_singleton] at h
      omega
    subst at_end
    rw [List.getElem_concat_length rfl]
    exact .inr ⟨is_root, rfl⟩

/-- Every tree that is built has its nodes at consecutive addresses, children before parents and
the root last, and none that is too wide or, below the root, empty. Each entry of an index node
stands for a node one level below, under the first key there. -/
theorem shaped_of_build {entries : List Entry} {t : BuiltTree} (built : d.build entries = .ok t)
    (small : d.nodeSize ≤ NodeDraft.largestNode)
    (room : d.firstAddress.toNat + t.nodes.length ≤ UInt64.size) :
    ∃ top f, Node.parse d.order t.root.bytes = .ok top ∧ top.footer = some f ∧
      Counted entries t f ∧ ∀ i n, t.nodes[i]? = some n → ∃ node,
        Shaped d t top.entrySizes i n node := by
  have few : t.nodes.length ≤ UInt64.size := by omega
  obtain ⟨wide, -, top_eq, -⟩ := build_eq_ok built
  obtain ⟨not_roots, is_root⟩ := root_of_plan (d := d) wide 0 0 (d.leafGroups entries)
  have limit : reach 64 = UInt64.size := rfl
  have low := level_of_build built wide 64 (by omega)
    (List.mem_append_right _ (List.mem_singleton_self _))
  obtain ⟨top, sound_top⟩ := buildNode_sound top_eq small (by omega)
  obtain ⟨f, footer_eq, made⟩ := root_footer small is_root top_eq sound_top.parsed
  have count := top_of_build built wide
  rw [plan] at count
  rw [count] at made
  refine ⟨top, f, sound_top.parsed, footer_eq, counted_of_footer made, fun i n at_i => ?_⟩
  rw [sound_top.sizes_eq is_root]
  obtain ⟨h, rfl⟩ := List.getElem?_eq_some_iff.mp at_i
  obtain ⟨_, length_eq, -⟩ := buildNode_of_build built
  have planned : i < ((d.plan wide entries).1 ++ [(d.plan wide entries).2]).length := by omega
  obtain ⟨node, sound⟩ := sound_of_build built small few wide planned h
  have index := index_plan wide entries planned
  have listed := List.getElem_mem planned
  have node_level : t.nodes[i].level
      = ((d.plan wide entries).1 ++ [(d.plan wide entries).2])[i].level := by
    obtain ⟨_, _, each⟩ := buildNode_of_build built
    obtain ⟨_, _, -, -, same⟩ := buildNode_eq_ok (each i planned h)
    rw [same]
  rw [List.length_append, List.length_singleton] at length_eq
  refine ⟨node, sound.parsed, ?_, ?_, ?_, ?_, ?_, fun below => ?_, fun inner k inside => ?_⟩
  · rw [sound.address_eq, index, toNat_addressOf (by omega)]
  · rw [sound.oid_eq, sound.address_eq, index]
    rfl
  · rw [sound.carries.level_eq, node_level]
  · rw [sound.root_eq]
    rcases plan_place wide planned with ⟨-, not_root, before⟩ | ⟨root, at_end⟩
    · simp [not_root]
      omega
    · simp [root]
      omega
  · rw [sound.carries.keyCount_eq]
    exact plan_narrow wide listed
  · rcases plan_place wide planned with ⟨inPlan, -⟩ | ⟨-, at_end⟩
    · rw [sound.carries.keyCount_eq]
      exact List.length_pos_iff.mpr (plan_filled wide inPlan)
    · omega
  · rcases plan_above wide listed with ⟨low, -⟩ | ⟨children, stands⟩
    · have level_zero : node.level.toNat = 0 := by rw [sound.carries.level_eq, low]
      exact absurd (Node.leaf_of_level level_zero) (ne_true_of_eq_false inner)
    · have leads := leads_of_above built small few wide stands sound inside
      rw [index] at leads
      exact leads

end TreeDraft

end ObjectStore
