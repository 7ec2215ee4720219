import ObjectStore.Proofs.Keys
import ObjectStore.Tree.Navigator

/-
What a tree holds: its leaf records from left to right, and the blocks of its nodes. A search is
compared with one scan of these records, which knows nothing of nodes.
-/
namespace ObjectStore.Tree

open Std

theorem Node.leaf_of_level {n : Node} (level_eq : n.level.toNat = 0) : n.isLeaf = true :=
  n.leaf_iff_level.mpr (UInt16.toNat_inj.mp level_eq)

theorem Node.inner_of_level {n : Node} {level : Nat} (level_eq : n.level.toNat = level + 1) :
    n.isLeaf = false := by
  apply eq_false_of_ne_true
  intro leaf
  have zero : n.level = 0 := n.leaf_iff_level.mp leaf
  simp [zero] at level_eq

structure Record (τ : Type) where
  key : τ
  found : Found

/-- The part of a tree below one entry of an index node, which holds at least one record. -/
structure Branch (τ : Type) where
  top : Loaded
  first : Record τ
  rest : List (Record τ)
  blocks : List BlockAddress

def Branch.records (b : Branch τ) : List (Record τ) := b.first :: b.rest

section

variable {τ : Type} {order : KeyOrder τ} (reads : Reference → Loaded → Prop)
  (view : KeyView order) (root : Reference) (sizes : Option EntrySizes)

structure LeafEntry (here : Loaded) (index : Nat) (r : Record τ) : Prop where
  key_eq : here.node.key sizes index = .ok r.found.key
  value_eq : here.node.value sizes index = .ok r.found.value
  decoded : view.decode here.node.order r.found.key = .ok r.key
  index_eq : r.found.index = index
  address_eq : r.found.address = here.address

/-- An entry of an index node one level above `level`: a pointer to a node that is not a root,
under the key of the first record below it. There is such a record, so no node below a root is
empty. -/
structure IndexEntry (here : Loaded) (level index : Nat) (b : Branch τ) : Prop where
  pointer : ∃ oid, here.node.child sizes index = .ok oid ∧ reads (root.sibling oid) b.top
  level_eq : b.top.node.level.toNat = level
  not_root : b.top.node.isRoot = false
  guide : ∃ stored, here.node.key sizes index = .ok stored ∧
    view.decode here.node.order stored = .ok b.first.key

/-- `here`, a node of the given level, has these records and these blocks below it. -/
def Grown : Nat → Loaded → List (Record τ) → List BlockAddress → Prop
  | 0, here, records, blocks =>
      blocks = [here.address] ∧ here.node.keyCount = records.length ∧
        ∀ i (h : i < records.length), LeafEntry view sizes here i records[i]
  | level + 1, here, records, blocks => ∃ branches : List (Branch τ),
      blocks = here.address :: branches.flatMap Branch.blocks ∧
        records = branches.flatMap Branch.records ∧ here.node.keyCount = branches.length ∧
        ∀ i (h : i < branches.length),
          IndexEntry reads view root sizes here level i branches[i] ∧
          Grown level branches[i].top branches[i].records branches[i].blocks

/-- A tree below `root` in which no block is reached twice and the keys ascend. -/
structure GrownTree (maxDepth : UInt16) (top : Loaded) (records : List (Record τ))
    (blocks : List BlockAddress) : Prop where
  reads_top : reads root top
  is_root : top.node.isRoot = true
  shallow : top.node.level ≤ maxDepth
  grown : Grown reads view root top.node.entrySizes top.node.level.toNat top records blocks
  unshared : blocks.Nodup
  ascending : view.Ascending (records.map Record.key)

end

/-- The search that a descent makes in its leaf: beyond the last record of a leaf there is another
one, unless the path has kept to the right. -/
def leafMatch (how : Match) (rightmost : Bool) : Match :=
  if how = .closestLower ∧ rightmost = false then .floor else how

namespace KeyView

variable {τ : Type} {order : KeyOrder τ} (view : KeyView order)

def floor (records : List (Record τ)) (target : τ) : Option (Record τ) :=
  (records.filter fun r => view.atMost target r.key).getLast?

def scan (records : List (Record τ)) (target : τ) : Match → Option (Record τ)
  | .floor => view.floor records target
  | .closestLower =>
      if records.getLast?.any fun r => view.cmp r.key target == .lt then none
      else view.floor records target
  | .exact => (records.filter fun r => view.cmp r.key target == .eq).getLast?
  | .versioned => (view.floor records target).filter fun r => view.same r.key target

theorem records_closed {records : List (Record τ)}
    (ascending : view.Ascending (records.map Record.key)) (target : τ) :
    records.Pairwise fun a b => view.atMost target b.key = true → view.atMost target a.key = true :=
  (List.pairwise_map.mp ascending).imp view.atMost_of_le

theorem floor_eq_getElem {records : List (Record τ)}
    (ascending : view.Ascending (records.map Record.key)) (target : τ) :
    view.floor records target = match (records.map Record.key).countP (view.atMost target) with
      | 0 => none
      | floor + 1 => records[floor]? := by
  have count : (records.map Record.key).countP (view.atMost target)
      = records.countP fun r => view.atMost target r.key := List.countP_map
  have le := List.countP_le_length (p := fun r => view.atMost target r.key) (l := records)
  rw [floor, filter_eq_take (view.records_closed ascending target), count]
  cases h : records.countP fun r => view.atMost target r.key with
  | zero => rfl
  | succ floor =>
    have inside : floor < records.length := by omega
    rw [List.getLast?_take, if_neg (by omega), Nat.add_sub_cancel,
      List.getElem?_eq_getElem inside, Option.some_or]
    exact (List.getElem?_eq_getElem inside).symm

/-- Among ascending keys the last that equals the target is the floor or nothing. -/
theorem scan_exact {records : List (Record τ)}
    (ascending : view.Ascending (records.map Record.key)) (target : τ) :
    view.scan records target .exact
      = (view.floor records target).filter fun r => view.cmp r.key target == .eq := by
  have := view.trans
  have equal_low : records.filter (fun r => view.cmp r.key target == .eq)
      = (records.filter fun r => view.atMost target r.key).filter
          fun r => view.cmp r.key target == .eq := by
    rw [List.filter_filter]
    apply List.filter_congr
    intro r _
    cases h : view.cmp r.key target <;> simp [atMost, h]
  have sorted := (List.pairwise_map.mp ascending).filter fun r => view.atMost target r.key
  have low_atMost : ∀ r ∈ records.filter (fun r => view.atMost target r.key),
      view.atMost target r.key = true := fun r mem => (List.mem_filter.mp mem).2
  rw [scan, floor, equal_low]
  rcases List.eq_nil_or_concat (records.filter fun r => view.atMost target r.key) with
    empty | ⟨front, last, split⟩
  · simp [empty]
  · rw [List.concat_eq_append] at split
    rw [split] at sorted low_atMost ⊢
    rw [List.filter_append, List.getLast?_concat]
    cases outcome : view.cmp last.key target == .eq with
    | true => simp [outcome, Option.filter]
    | false =>
      have below : view.cmp last.key target = .lt := by
        have le := low_atMost last (by simp)
        cases h : view.cmp last.key target <;> simp_all [atMost]
      have none_equal : front.filter (fun r => view.cmp r.key target == .eq) = [] := by
        rw [List.filter_eq_nil_iff]
        intro r mem equal
        have le := (List.pairwise_append.mp sorted).2.2 r mem last (by simp)
        rw [TransCmp.lt_of_isLE_of_lt le below] at equal
        cases equal
      simp [outcome, none_equal, Option.filter]

def fits (records : List (Record τ)) (target : τ) (how : Match) (r : Record τ) : Bool :=
  match how with
  | .floor => true
  | .closestLower => !records.getLast?.any fun r => view.cmp r.key target == .lt
  | .exact => view.cmp r.key target == .eq
  | .versioned => view.same r.key target

/-- Every search among ascending keys finds the floor or nothing. -/
theorem scan_eq_filter {records : List (Record τ)}
    (ascending : view.Ascending (records.map Record.key)) (target : τ) (how : Match) :
    view.scan records target how
      = (view.floor records target).filter (view.fits records target how) := by
  cases how with
  | floor => cases h : view.floor records target <;> simp [scan, fits, h, Option.filter]
  | closestLower =>
    cases h : view.floor records target <;>
      cases beyond : records.getLast?.any (fun r => view.cmp r.key target == .lt) <;>
      simp [scan, fits, h, beyond, Option.filter]
  | exact => exact view.scan_exact ascending target
  | versioned => rfl

/-- Every search for the key of the last record finds that record. -/
theorem scan_last {records : List (Record τ)} {r : Record τ} (last : records.getLast? = some r)
    (same : view.same r.key r.key = true) (how : Match) : view.scan records r.key how = some r := by
  have := view.lawful
  have self : view.cmp r.key r.key = .eq := ReflCmp.compare_self
  obtain ⟨front, rfl⟩ := List.getLast?_eq_some_iff.mp last
  cases how with
  | floor => simp [scan, floor, atMost, self]
  | closestLower => simp [scan, floor, atMost, self]
  | exact => simp [scan, self]
  | versioned => simp [scan, floor, atMost, self, same]

theorem getLast?_eq_getElem {records : List (Record τ)} {i : Nat} (h : i < records.length)
    (last : i = records.length - 1) : records.getLast? = some records[i] := by
  subst last
  rw [List.getLast?_eq_getElem?, List.getElem?_eq_getElem]

theorem accepts_eq_fits {records : List (Record τ)}
    (ascending : view.Ascending (records.map Record.key)) {target : τ} {floor : Nat}
    (count : (records.map Record.key).countP (view.atMost target) = floor + 1) (how : Match)
    (h : floor < records.length) :
    view.accepts target how records.length floor records[floor].key
      = view.fits records target how records[floor] := by
  have closed := view.ascending_closed ascending target
  cases how with
  | floor => rfl
  | exact => rfl
  | versioned => rfl
  | closestLower =>
    by_cases inner : floor + 1 < records.length
    · have last : records.getLast? = some records[records.length - 1] :=
        getLast?_eq_getElem (by omega) rfl
      have above : ¬ view.atMost target records[records.length - 1].key = true := by
        have iff := lt_countP_iff closed (records.length - 1) (by simp; omega)
        rw [List.getElem_map] at iff
        rw [← iff]
        omega
      cases outcome : view.cmp records[records.length - 1].key target <;>
        simp_all [accepts, fits, atMost]
    · have last : records.getLast? = some records[floor] := getLast?_eq_getElem h (by omega)
      have low := (lt_countP_iff closed floor (by simpa using h)).mp (by omega)
      rw [List.getElem_map] at low
      cases outcome : view.cmp records[floor].key target <;> simp_all [accepts, fits, atMost]

/-- A search of one leaf is a scan of its records. -/
theorem place_eq_scan {records : List (Record τ)}
    (ascending : view.Ascending (records.map Record.key)) (target : τ) (how : Match) :
    (view.place (records.map Record.key) target how).bind (records[·]?)
      = view.scan records target how := by
  rw [view.scan_eq_filter ascending, view.floor_eq_getElem ascending]
  cases count : (records.map Record.key).countP (view.atMost target) with
  | zero =>
    simp only [place, count]
    rfl
  | succ floor =>
    have h : floor < records.length := by
      have := List.countP_le_length (p := view.atMost target) (l := records.map Record.key)
      simp only [List.length_map] at this
      omega
    have agree := view.accepts_eq_fits ascending count how h
    simp only [place, count, List.length_map, List.getElem?_map, List.getElem?_eq_getElem h,
      Option.map_some, Option.any_some, agree, Option.filter]
    split <;> simp [h]

section Branches

variable {branches : List (Branch τ)}
  (ascending : view.Ascending ((branches.flatMap Branch.records).map Record.key))

include ascending in
theorem branches_pairwise :
    (∀ b ∈ branches, view.Ascending (b.records.map Record.key)) ∧
      branches.Pairwise fun a b =>
        ∀ x ∈ a.records, ∀ y ∈ b.records, (view.cmp x.key y.key).isLE := by
  obtain ⟨inside, between⟩ := List.pairwise_flatMap.mp (List.pairwise_map.mp ascending)
  exact ⟨fun b mem => List.pairwise_map.mpr (inside b mem), between⟩

include ascending in
theorem guides_ascending : view.Ascending (branches.map fun b => b.first.key) :=
  List.pairwise_map.mpr ((view.branches_pairwise ascending).2.imp fun le =>
    le _ List.mem_cons_self _ List.mem_cons_self)

include ascending in
/-- Below a key above the target everything is above the target. -/
theorem branch_above {target : τ} {b : Branch τ} (mem : b ∈ branches)
    (above : ¬view.atMost target b.first.key = true) (r : Record τ) (inside : r ∈ b.records) :
    ¬view.atMost target r.key = true := by
  intro low
  rcases List.mem_cons.mp inside with same | later
  · exact above (same ▸ low)
  · have sorted := List.pairwise_map.mp ((view.branches_pairwise ascending).1 b mem)
    exact above (view.atMost_of_le ((List.pairwise_cons.mp sorted).1 r later) low)

/-- The last record lies below the last entry. -/
theorem getLast?_flatMap_append {front back : List (Branch τ)} (more : back ≠ []) :
    ((front ++ back).flatMap Branch.records).getLast? = (back.flatMap Branch.records).getLast? := by
  have some_last : (back.flatMap Branch.records).getLast?.isSome = true := by
    rw [List.getLast?_isSome]
    cases back with
    | nil => contradiction
    | cons b back => simp [Branch.records]
  rw [List.flatMap_append, List.getLast?_append, Option.or_of_isSome some_last]

/-- The floor lies below the last key that is not above the target. -/
theorem floor_flatMap {front back : List (Branch τ)} {b : Branch τ} {target : τ}
    (low : view.atMost target b.first.key = true)
    (high : ∀ c ∈ back, ∀ r ∈ c.records, ¬view.atMost target r.key = true) :
    view.floor ((front ++ b :: back).flatMap Branch.records) target
      = view.floor b.records target := by
  have none_beyond :
      (back.flatMap Branch.records).filter (fun r => view.atMost target r.key) = [] := by
    rw [List.filter_eq_nil_iff]
    intro r mem
    obtain ⟨c, inBack, inside⟩ := List.mem_flatMap.mp mem
    exact high c inBack r inside
  have some_here : (b.records.filter fun r => view.atMost target r.key).getLast?.isSome = true := by
    rw [List.getLast?_isSome]
    simp [Branch.records, low]
  rw [floor, List.flatMap_append, List.flatMap_cons, List.filter_append, List.filter_append,
    none_beyond, List.append_nil, List.getLast?_append, Option.or_of_isSome some_here]
  rfl

include ascending in
theorem floor_none {target : τ}
    (none_low : (branches.map fun b => b.first.key).countP (view.atMost target) = 0) :
    view.floor (branches.flatMap Branch.records) target = none := by
  rw [floor, List.getLast?_eq_none_iff, List.filter_eq_nil_iff]
  intro r mem
  obtain ⟨b, inside, inBranch⟩ := List.mem_flatMap.mp mem
  refine view.branch_above ascending inside ?_ r inBranch
  exact List.countP_eq_zero.mp none_low _ (List.mem_map_of_mem inside)

include ascending in
theorem branches_above {target : τ} {j : Nat}
    (count : (branches.map fun b => b.first.key).countP (view.atMost target) = j + 1) :
    ∀ c ∈ branches.drop (j + 1), ∀ r ∈ c.records, ¬view.atMost target r.key = true := by
  have closed := view.ascending_closed (view.guides_ascending ascending) target
  intro c mem
  obtain ⟨i, hi, same⟩ := List.mem_drop_iff_getElem.mp mem
  have above : ¬view.atMost target c.first.key = true := by
    have side := lt_countP_iff closed (j + 1 + i) (by rw [List.length_map]; omega)
    rw [count, List.getElem_map, same] at side
    rw [← side]
    omega
  exact view.branch_above ascending (List.mem_of_mem_drop mem) above

include ascending in
theorem floor_branch {target : τ} {j : Nat} (h : j < branches.length)
    (count : (branches.map fun b => b.first.key).countP (view.atMost target) = j + 1) :
    view.floor (branches.flatMap Branch.records) target
      = view.floor branches[j].records target := by
  have closed := view.ascending_closed (view.guides_ascending ascending) target
  have low : view.atMost target branches[j].first.key = true := by
    have side := lt_countP_iff closed j (by rw [List.length_map]; exact h)
    rw [count, List.getElem_map] at side
    exact side.mp (Nat.lt_succ_self j)
  have split : branches = branches.take j ++ branches[j] :: branches.drop (j + 1) := by simp
  conv => lhs; rw [split]
  exact view.floor_flatMap low (view.branches_above ascending count)

theorem getLast?_last_branch {j : Nat} (h : j < branches.length) (last : j + 1 = branches.length) :
    (branches.flatMap Branch.records).getLast? = branches[j].records.getLast? := by
  have split : branches = branches.take j ++ [branches[j]] := by
    rw [← List.take_succ_eq_append_getElem h, last, List.take_length]
  conv => lhs; rw [split]
  rw [getLast?_flatMap_append (List.cons_ne_nil _ _), List.flatMap_singleton]

include ascending in
/-- With entries beyond the floor, the last record is above the target. -/
theorem last_not_below {target : τ} {j : Nat} (more : j + 1 < branches.length)
    (count : (branches.map fun b => b.first.key).countP (view.atMost target) = j + 1) :
    (branches.flatMap Branch.records).getLast?.any
      (fun r => view.cmp r.key target == .lt) = false := by
  have some_back : branches.drop (j + 1) ≠ [] := by
    rw [Ne, List.drop_eq_nil_iff]
    omega
  rw [← List.take_append_drop (j + 1) branches, getLast?_flatMap_append some_back]
  cases final : ((branches.drop (j + 1)).flatMap Branch.records).getLast? with
  | none => rfl
  | some r =>
    obtain ⟨c, inBack, inside⟩ := List.mem_flatMap.mp (List.mem_of_getLast? final)
    have above := view.branches_above ascending count c inBack r inside
    cases outcome : view.cmp r.key target <;> simp [atMost, outcome] at above ⊢

include ascending in
/-- A search below an index node is the search below the entry that is its floor. -/
theorem scan_branch {target : τ} {j : Nat} (h : j < branches.length)
    (count : (branches.map fun b => b.first.key).countP (view.atMost target) = j + 1)
    (how : Match) (rightmost : Bool) :
    view.scan (branches.flatMap Branch.records) target (leafMatch how rightmost)
      = view.scan branches[j].records target
          (leafMatch how (rightmost && j + 1 == branches.length)) := by
  have floor_eq := view.floor_branch ascending h count
  have here := (view.branches_pairwise ascending).1 branches[j] (List.getElem_mem h)
  cases how with
  | floor => simpa [leafMatch, scan] using floor_eq
  | exact =>
    simp only [leafMatch, reduceCtorEq, false_and, ↓reduceIte]
    rw [view.scan_exact ascending, view.scan_exact here, floor_eq]
  | versioned => simp [leafMatch, scan, floor_eq]
  | closestLower =>
    cases rightmost with
    | false => simpa [leafMatch, scan] using floor_eq
    | true =>
      by_cases last : j + 1 = branches.length
      · simp [leafMatch, scan, last, floor_eq, getLast?_last_branch h last]
      · have beyond := view.last_not_below ascending (by omega) count
        simp [leafMatch, scan, last, floor_eq, beyond]

end Branches

end KeyView

end ObjectStore.Tree
