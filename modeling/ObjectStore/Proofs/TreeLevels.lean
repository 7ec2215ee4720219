import Mathlib.Data.List.Perm.Basic
import ObjectStore.Proofs.TreePlan

/-
The levels of a tree, from the leaves to the root: whatever nodes come to carry the entries that
were planned for them make up a tree with the planned records.
-/
namespace ObjectStore

open ObjectStore.Tree

theorem size_wordBytes (e : ByteOrder) (v : UInt64) : (wordBytes e v).size = 8 := by
  rw [wordBytes, e.size_bytesOf]
  rfl

theorem read64_wordBytes (e : ByteOrder) (v : UInt64) : e.read64 (wordBytes e v) 0 = .ok v := by
  have size_eq := size_wordBytes e v
  have width : Width.eight.bytes = 8 := rfl
  have limit : 8 < Bytes.addressLimit := by decide
  have read : e.read .eight (wordBytes e v) 0 = .ok (e.wordOf (e.bytesOf .eight v)) :=
    ByteOrder.read_of_bytes (by omega) (by omega) fun i h => by
      rw [Nat.zero_add]
      exact Bytes.getPadded_ofList h
  rw [ByteOrder.read64, read]
  refine congrArg Except.ok (UInt64.toNat_inj.mp ?_)
  rw [e.toNat_wordOf_bytesOf]
  exact Nat.mod_eq_of_lt v.toNat_lt

theorem Tree.Node.child_of_value {n : Node} {sizes : Option EntrySizes} {i : Nat} {oid : ObjectId}
    (inner : n.level ≠ 0) (value : n.value sizes i = .ok (wordBytes n.order oid)) :
    n.child sizes i = .ok oid := by
  have not_leaf : n.isLeaf = false := by
    cases leaf : n.isLeaf with
    | false => rfl
    | true => exact absurd (n.leaf_iff_level.mp leaf) inner
  have width : (wordBytes n.order oid).size = pointerSize.toNat := size_wordBytes _ _
  simp only [Node.child, not_leaf, value, ok_bind, width, ne_eq, not_true_eq_false,
    Bool.false_eq_true, ↓reduceIte]
  exact read64_wordBytes _ _

namespace TreeDraft

variable {τ : Type} {order : KeyOrder τ} (view : KeyView order)
  (reads : Reference → Loaded → Prop) (root : Reference) (d : TreeDraft)

structure Carries (node : Node) (level : Nat) (entries : List Entry) : Prop where
  order_eq : node.order = d.order
  level_eq : node.level.toNat = level
  keyCount_eq : node.keyCount = entries.length
  key_eq : ∀ i (h : i < entries.length),
    node.key (some d.layout.stated) i = .ok entries[i].1
  value_eq : ∀ i (h : i < entries.length),
    node.value (some d.layout.stated) i = .ok entries[i].2

/-- The records below a planned node, and the numbers of the nodes below it. -/
structure Part (τ : Type) where
  records : List (Record τ)
  below : List Nat

structure Held (p : PlannedNode) (part : Part τ) : Prop where
  guide : ∃ entry first rest, p.entries.head? = some entry ∧ part.records = first :: rest ∧
    view.decode d.order entry.1 = .ok first.key
  grown : ∀ node, d.Carries node p.level p.entries →
    Grown reads view root (some d.layout.stated) p.level ⟨d.addressOf p.index, node⟩ part.records
      ((p.index :: part.below).map d.addressOf)

structure Served (p : PlannedNode) (node : Node) : Prop where
  carries : d.Carries node p.level p.entries
  not_root : node.isRoot = false
  served : reads (root.sibling (d.oidOf p.index)) ⟨d.addressOf p.index, node⟩

def joined (chunk : List (PlannedNode × Part τ)) : Part τ where
  records := chunk.flatMap fun x => x.2.records
  below := chunk.flatMap fun x => x.1.index :: x.2.below

structure Stands (x : PlannedNode × Part τ) (b : Branch τ) : Prop where
  records_eq : b.records = x.2.records
  blocks_eq : b.blocks = (x.1.index :: x.2.below).map d.addressOf
  guide : view.decode d.order (d.pointerTo x.1).1 = .ok b.first.key
  top : Served reads root d x.1 b.top.node
  address_eq : b.top.address = d.addressOf x.1.index
  grown : Grown reads view root (some d.layout.stated) x.1.level b.top b.records b.blocks

variable {view reads root d}

theorem Held.exists_branch {x : PlannedNode × Part τ} {node : Node}
    (held : Held view reads root d x.1 x.2) (served : Served reads root d x.1 node) :
    ∃ b, Stands view reads root d x b := by
  obtain ⟨entry, first, rest, head, records_eq, decoded⟩ := held.guide
  have grown := held.grown node served.carries
  rw [records_eq] at grown
  refine ⟨⟨⟨d.addressOf x.1.index, node⟩, first, rest, (x.1.index :: x.2.below).map d.addressOf⟩,
    records_eq.symm, rfl, ?_, served, rfl, grown⟩
  rw [pointerTo, head]
  exact decoded

theorem Stands.entry {x : PlannedNode × Part τ} {b : Branch τ}
    (stands : Stands view reads root d x b) {here : Loaded} {entries : List Entry} {level i : Nat}
    (carries : d.Carries here.node (level + 1) entries) (h : i < entries.length)
    (entry_eq : entries[i] = d.pointerTo x.1) (level_eq : x.1.level = level) :
    IndexEntry reads view root (some d.layout.stated) here level i b where
  pointer := by
    have inner : here.node.level ≠ 0 := by
      intro zero
      have level_eq := carries.level_eq
      rw [zero] at level_eq
      exact absurd level_eq (by simp)
    have value := carries.value_eq i h
    rw [entry_eq] at value
    have served := stands.top.served
    rw [← stands.address_eq] at served
    exact ⟨d.oidOf x.1.index, Node.child_of_value inner (by rw [carries.order_eq]; exact value),
      served⟩
  level_eq := by rw [stands.top.carries.level_eq, level_eq]
  not_root := stands.top.not_root
  guide := by
    have key := carries.key_eq i h
    rw [entry_eq] at key
    exact ⟨_, key, by rw [carries.order_eq]; exact stands.guide⟩

theorem joined_grown {chunk : List (PlannedNode × Part τ)} {level index : Nat} {node : Node}
    (held : ∀ x ∈ chunk, Held view reads root d x.1 x.2)
    (served : ∀ x ∈ chunk, ∃ node, Served reads root d x.1 node)
    (level_eq : ∀ x ∈ chunk, x.1.level = level)
    (carries : d.Carries node (level + 1) ((chunk.map Prod.fst).map d.pointerTo)) :
    Grown reads view root (some d.layout.stated) (level + 1) ⟨d.addressOf index, node⟩
      (joined chunk).records ((index :: (joined chunk).below).map d.addressOf) := by
  obtain ⟨pairs, same, stands⟩ := exists_pairs (R := fun x b => Stands view reads root d x b)
    (l := chunk) fun x mem => by
      obtain ⟨node, known⟩ := served x mem
      exact (held x mem).exists_branch known
  subst same
  refine ⟨pairs.map Prod.snd, ?_, ?_, ?_, fun i h => ?_⟩
  · simp only [joined, List.map_cons, List.map_flatMap, List.flatMap_map]
    rw [List.flatMap_def, List.flatMap_def, List.map_congr_left fun p mem => ?_]
    rw [(stands p mem).blocks_eq, List.map_cons]
  · simp only [joined, List.flatMap_map]
    rw [List.flatMap_def, List.flatMap_def, List.map_congr_left fun p mem => ?_]
    exact (stands p mem).records_eq.symm
  · rw [carries.keyCount_eq, List.length_map, List.length_map, List.length_map, List.length_map]
  · have h : i < pairs.length := by simpa using h
    have at_i := stands pairs[i] (List.getElem_mem h)
    have level_i := level_eq pairs[i].1 (List.mem_map_of_mem (List.getElem_mem h))
    rw [List.getElem_map]
    refine ⟨at_i.entry carries (by simpa using h) (by simp) level_i, ?_⟩
    rw [← level_i]
    exact at_i.grown

theorem joined_held {chunk : List (PlannedNode × Part τ)} {level index : Nat}
    (some_there : chunk ≠ []) (held : ∀ x ∈ chunk, Held view reads root d x.1 x.2)
    (served : ∀ x ∈ chunk, ∃ node, Served reads root d x.1 node)
    (level_eq : ∀ x ∈ chunk, x.1.level = level) (is_root : Bool) :
    Held view reads root d
      ⟨index, level + 1, is_root, (chunk.map Prod.fst).map d.pointerTo⟩ (joined chunk) where
  guide := by
    cases chunk with
    | nil => contradiction
    | cons x rest =>
      obtain ⟨entry, first, more, head, records_eq, decoded⟩ := (held x List.mem_cons_self).guide
      refine ⟨d.pointerTo x.1, first, more ++ rest.flatMap fun x => x.2.records, rfl, ?_, ?_⟩
      · rw [joined, List.flatMap_cons, records_eq, List.cons_append]
      · rw [pointerTo, head]
        exact decoded
  grown _ carries := joined_grown held served level_eq carries

theorem Held.of_same {p q : PlannedNode} {part : Part τ} (held : Held view reads root d p part)
    (index_eq : q.index = p.index) (level_eq : q.level = p.level)
    (entries_eq : q.entries = p.entries) : Held view reads root d q part where
  guide := by
    rw [entries_eq]
    exact held.guide
  grown := by
    rw [index_eq, level_eq, entries_eq]
    exact held.grown

def nextItems (d : TreeDraft) (level next : Nat) (items : List (PlannedNode × Part τ)) :
    List (PlannedNode × Part τ) :=
  (chunks d.fanout items).zipIdx.map fun (chunk, j) =>
    (⟨next + j, level + 1, false, (chunk.map Prod.fst).map d.pointerTo⟩, joined chunk)

theorem nextItems_planned (d : TreeDraft) (level next : Nat) (items : List (PlannedNode × Part τ)) :
    (nextItems d level next items).map Prod.fst
      = planLevel (level + 1) next (chunks d.fanout ((items.map Prod.fst).map d.pointerTo)) := by
  rw [chunks_map, chunks_map, nextItems, planLevel, List.map_map, List.zipIdx_map, List.zipIdx_map,
    List.map_map, List.map_map]
  rfl

theorem flatMap_nextItems {β : Type} (d : TreeDraft) (level next : Nat)
    (items : List (PlannedNode × Part τ)) (f : Part τ → List β)
    (g : PlannedNode × Part τ → List β) (splits : ∀ chunk, f (joined chunk) = chunk.flatMap g) :
    (nextItems d level next items).flatMap (fun x => f x.2) = items.flatMap g := by
  rw [nextItems, List.flatMap_map, ← chunks_flatMap d.fanout g items]
  conv => rhs; rw [← List.zipIdx_map_fst 0 (chunks d.fanout items), List.flatMap_map]
  rw [List.flatMap_def, List.flatMap_def, List.map_congr_left fun x _ => ?_]
  exact splits x.1

theorem level_of_planned {level next : Nat} {groups : List (List Entry)}
    {items : List (PlannedNode × Part τ)}
    (planned : items.map Prod.fst = planLevel level next groups) {x : PlannedNode × Part τ}
    (mem : x ∈ items) : x.1.level = level := by
  have inPlan : x.1 ∈ planLevel level next groups := planned ▸ List.mem_map_of_mem mem
  simp only [planLevel, List.mem_map] at inPlan
  obtain ⟨_, -, same⟩ := inPlan
  rw [← same]

theorem single_planned {level next : Nat} {entries : List Entry}
    {items : List (PlannedNode × Part τ)}
    (planned : items.map Prod.fst = planLevel level next [entries]) :
    ∃ x, items = [x] ∧ x.1 = ⟨next, level, false, entries⟩ := by
  have single : items.length = 1 := by
    rw [← List.length_map, planned, length_planLevel]
    rfl
  obtain ⟨x, same⟩ := List.length_eq_one_iff.mp single
  subst same
  exact ⟨x, rfl, by simpa [planLevel] using planned⟩

/-- A node above a level holds what its chunk of the level holds, if the level is served. -/
theorem nextItems_held {level next above : Nat} {groups : List (List Entry)}
    {items : List (PlannedNode × Part τ)}
    (planned : items.map Prod.fst = planLevel level next groups)
    (held : ∀ x ∈ items, Held view reads root d x.1 x.2)
    (served : ∀ p ∈ planLevel level next groups, ∃ node, Served reads root d p node) :
    ∀ x ∈ nextItems d level above items, Held view reads root d x.1 x.2 := by
  intro x mem
  obtain ⟨⟨chunk, j⟩, inside, same⟩ := List.mem_map.mp mem
  subst same
  have inChunks := List.fst_mem_of_mem_zipIdx inside
  have inItems : ∀ y ∈ chunk, y ∈ items := by
    intro y inChunk
    exact mem_of_mem_chunks d.fanout inChunks inChunk
  have served_here : ∀ y ∈ chunk, ∃ node, Served reads root d y.1 node := by
    intro y inChunk
    have inPlan : y.1 ∈ planLevel level next groups :=
      planned ▸ List.mem_map_of_mem (inItems y inChunk)
    exact served y.1 inPlan
  have level_here : ∀ y ∈ chunk, y.1.level = level := by
    intro y inChunk
    exact level_of_planned planned (inItems y inChunk)
  exact joined_held (ne_nil_of_mem_chunks d.fanout inChunks)
    (fun y inChunk => held y (inItems y inChunk)) served_here level_here false

/-- No node is below two others. -/
theorem nodup_level {level next : Nat} {groups : List (List Entry)}
    {items : List (PlannedNode × Part τ)}
    (planned : items.map Prod.fst = planLevel level next groups)
    (nodup : (items.flatMap fun x => x.2.below).Nodup)
    (earlier : ∀ i ∈ items.flatMap fun x => x.2.below, i < next) :
    (items.flatMap fun x => x.1.index :: x.2.below).Nodup ∧
      ∀ i ∈ items.flatMap fun x => x.1.index :: x.2.below, i < next + groups.length := by
  have indices : (items.map fun x => x.1.index) = List.range' next groups.length := by
    rw [← index_planLevel level next, ← planned, List.map_map]
    rfl
  have perm := (items.map_append_flatMap_perm (fun x => x.1.index) fun x => x.2.below).symm
  rw [indices] at perm
  constructor
  · rw [perm.nodup_iff, List.nodup_append]
    refine ⟨List.nodup_range' .., nodup, fun i here j there same => ?_⟩
    have := (List.mem_range'_1.mp here).1
    have := earlier j there
    omega
  · intro i mem
    rcases List.mem_append.mp (perm.mem_iff.mp mem) with here | there
    · exact (List.mem_range'_1.mp here).2
    · have := earlier i there
      omega

/-- If every node below the root is served, the root has the records of the whole level below it,
and the nodes below it are all different. -/
theorem planFrom_held (wide : 2 ≤ d.fanout) (level next : Nat) (groups : List (List Entry))
    (some_there : groups ≠ []) : ∀ items : List (PlannedNode × Part τ),
    items.map Prod.fst = planLevel level next groups →
    (∀ x ∈ items, Held view reads root d x.1 x.2) →
    (items.flatMap fun x => x.2.below).Nodup →
    (∀ i ∈ items.flatMap fun x => x.2.below, i < next) →
    (∀ p ∈ (d.planFrom wide level next groups).1, ∃ node, Served reads root d p node) →
    ∃ part, Held view reads root d (d.planFrom wide level next groups).2 part ∧
      part.records = (items.flatMap fun x => x.2.records) ∧ part.below.Nodup ∧
      ∀ i ∈ part.below, i < (d.planFrom wide level next groups).2.index := by
  induction level, next, groups using planFrom.induct d wide with
  | case1 level next groups one =>
    intro items planned held nodup earlier _
    rw [d.planFrom_one wide one]
    have some_group := List.length_pos_iff.mpr some_there
    obtain ⟨entries, only⟩ := List.length_eq_one_iff.mp (show groups.length = 1 by omega)
    subst only
    obtain ⟨x, same, plan_eq⟩ := single_planned planned
    subst same
    have held_top := (held x List.mem_cons_self).of_same (q := ⟨next, level, true, entries⟩)
      (by rw [plan_eq]) (by rw [plan_eq]) (by rw [plan_eq])
    exact ⟨x.2, held_top, by simp, by simpa using nodup, by simpa using earlier⟩
  | case2 level next groups many here above top upper ih =>
    intro items planned held nodup earlier served
    rw [d.planFrom_more wide many upper] at served ⊢
    rw [upper] at ih
    -- The level above is planned from this one and holds what its chunks hold.
    have planned_next := nextItems_planned d level (next + groups.length) items
    rw [planned] at planned_next
    have below_eq := flatMap_nextItems d level (next + groups.length) items Part.below
      (fun x => x.1.index :: x.2.below) fun _ => rfl
    have records_eq := flatMap_nextItems d level (next + groups.length) items Part.records
      (fun x => x.2.records) fun _ => rfl
    obtain ⟨nodup_next, earlier_next⟩ := nodup_level planned nodup earlier
    have some_chunk := chunks_planLevel_ne_nil d level next some_there
    have held_next : ∀ x ∈ nextItems d level (next + groups.length) items,
        Held view reads root d x.1 x.2 :=
      nextItems_held planned held fun p mem => served p (List.mem_append_left _ mem)
    obtain ⟨part, held_top, part_records, part_nodup, part_earlier⟩ := ih some_chunk
      (nextItems d level (next + groups.length) items) planned_next held_next
      (by rwa [below_eq]) (by rwa [below_eq])
      (fun p mem => served p (List.mem_append_right _ mem))
    exact ⟨part, held_top, part_records.trans records_eq, part_nodup, part_earlier⟩

def leafPart (d : TreeDraft) (index : Nat) (chunk : List (Entry × τ)) : Part τ where
  records := chunk.zipIdx.map fun (pair, i) =>
    ⟨pair.2, ⟨pair.1.1, pair.1.2, i, d.addressOf index⟩⟩
  below := []

theorem leafPart_held {chunk : List (Entry × τ)} {index : Nat} (some_there : chunk ≠ [])
    (decodes : ∀ pair ∈ chunk, view.decode d.order pair.1.1 = .ok pair.2) :
    Held view reads root d ⟨index, 0, false, chunk.map Prod.fst⟩ (leafPart d index chunk) where
  guide := by
    cases chunk with
    | nil => contradiction
    | cons pair rest => exact ⟨pair.1, _, _, rfl, rfl, decodes pair List.mem_cons_self⟩
  grown := by
    intro node carries
    refine ⟨rfl, ?_, fun i h => ?_⟩
    · rw [carries.keyCount_eq]
      simp [leafPart]
    · have h : i < chunk.length := by simpa [leafPart] using h
      have inside : i < (chunk.map Prod.fst).length := by simpa using h
      have key := carries.key_eq i inside
      have value := carries.value_eq i inside
      have decoded := decodes chunk[i] (List.getElem_mem h)
      rw [← carries.order_eq] at decoded
      simp only [leafPart, List.getElem_map, List.getElem_zipIdx, Nat.zero_add] at key value ⊢
      exact ⟨key, value, decoded, rfl, rfl⟩

def leafItems (d : TreeDraft) (pairs : List (Entry × τ)) : List (PlannedNode × Part τ) :=
  (chunks d.fanout pairs).zipIdx.map fun (chunk, j) =>
    (⟨0 + j, 0, false, chunk.map Prod.fst⟩, leafPart d (0 + j) chunk)

theorem leafItems_planned (d : TreeDraft) (pairs : List (Entry × τ)) :
    (leafItems d pairs).map Prod.fst = planLevel 0 0 (chunks d.fanout (pairs.map Prod.fst)) := by
  rw [chunks_map, leafItems, planLevel, List.map_map, List.zipIdx_map, List.map_map]
  rfl

theorem leafItems_below (d : TreeDraft) (pairs : List (Entry × τ)) :
    ((leafItems d pairs).flatMap fun x => x.2.below) = [] := by
  rw [leafItems, List.flatMap_map, List.flatMap_eq_nil_iff]
  exact fun _ _ => rfl

theorem leafItems_held {pairs : List (Entry × τ)}
    (decodes : ∀ pair ∈ pairs, view.decode d.order pair.1.1 = .ok pair.2) :
    ∀ x ∈ leafItems d pairs, Held view reads root d x.1 x.2 := by
  intro x mem
  obtain ⟨⟨chunk, j⟩, inside, same⟩ := List.mem_map.mp mem
  subst same
  have inChunks := List.fst_mem_of_mem_zipIdx inside
  apply leafPart_held (ne_nil_of_mem_chunks d.fanout inChunks)
  intro pair inChunk
  exact decodes pair (mem_of_mem_chunks d.fanout inChunks inChunk)

/-- The leaves hold the entries with their keys, in the order given. -/
theorem leafItems_records (d : TreeDraft) (pairs : List (Entry × τ)) :
    ((leafItems d pairs).flatMap fun x => x.2.records).map
      (fun r => (((r.found.key, r.found.value) : Entry), r.key)) = pairs := by
  have leaf : ∀ x : List (Entry × τ) × Nat, (leafPart d (0 + x.2) x.1).records.map
      (fun r => (((r.found.key, r.found.value) : Entry), r.key)) = x.1 := by
    intro x
    conv => rhs; rw [← List.zipIdx_map_fst 0 x.1]
    rw [leafPart, List.map_map]
    rfl
  rw [leafItems, List.flatMap_map, List.map_flatMap, List.flatMap_def, List.map_congr_left
    fun x _ => leaf x, List.zipIdx_map_fst, chunks_flatten]

end TreeDraft

end ObjectStore
