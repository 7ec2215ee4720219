import ObjectStore.Proofs.Records
import ObjectStore.Proofs.Runs

/-
A search in a tree finds what a scan of its records finds. The descent passes the search on to
one entry of each index node, below which the scan comes to the same.
-/
namespace ObjectStore.Tree

open Session

/-- The node that a source hands out for a reference, from every state with `I`. -/
def Navigator.Answers (I : σ → Prop) (nav : Navigator (Session σ)) (reference : Reference)
    (loaded : Loaded) : Prop :=
  Yields I (nav.source reference) (.ok loaded)

def answer (order : KeyOrder τ) (root : Reference) (target : τ) :
    Option (Record τ) → Except StoreError Found
  | some r => .ok r.found
  | none => .error (.keyNotFound s!"{order.describe target} in tree {root.text}")

section Grown

variable {τ : Type} {order : KeyOrder τ} {reads : Reference → Loaded → Prop}
  {view : KeyView order} {root : Reference} {sizes : Option EntrySizes} {here : Loaded}

theorem leaf_hasKeys {records : List (Record τ)} (count : here.node.keyCount = records.length)
    (entries : ∀ i (h : i < records.length), LeafEntry view sizes here i records[i]) :
    here.node.HasKeys sizes view (records.map Record.key) := by
  refine ⟨by rw [count, List.length_map], fun i h => ?_⟩
  have entry := entries i (by simpa using h)
  exact ⟨_, entry.key_eq, by rw [List.getElem_map]; exact entry.decoded⟩

theorem leaf_found {index : Nat} {r : Record τ} (entry : LeafEntry view sizes here index r) :
    (⟨r.found.key, r.found.value, index, here.address⟩ : Found) = r.found := by
  rw [← entry.index_eq, ← entry.address_eq]

theorem index_hasKeys {level : Nat} {branches : List (Branch τ)}
    (count : here.node.keyCount = branches.length)
    (entries : ∀ i (h : i < branches.length),
      IndexEntry reads view root sizes here level i branches[i]) :
    here.node.HasKeys sizes view (branches.map fun b => b.first.key) := by
  refine ⟨by rw [count, List.length_map], fun i h => ?_⟩
  obtain ⟨stored, read, decoded⟩ := (entries i (by simpa using h)).guide
  exact ⟨stored, read, by rw [List.getElem_map]; exact decoded⟩

theorem head_block {level : Nat} {records : List (Record τ)} {blocks : List BlockAddress}
    (grown : Grown reads view root sizes level here records blocks) :
    blocks = here.address :: blocks.tail := by
  cases level with
  | zero =>
    obtain ⟨same, -⟩ := grown
    rw [same]
    rfl
  | succ level =>
    obtain ⟨branches, same, -⟩ := grown
    rw [same]
    rfl

/-- A path that has not entered the blocks below a node has not entered those of a branch of it,
nor has it once it is led on to the top of the branch. -/
theorem fresh_below {branches : List (Branch τ)} {b : Branch τ} {path : List BlockAddress}
    (head : b.blocks = b.top.address :: b.blocks.tail) (mem : b ∈ branches)
    (nodup : (branches.flatMap Branch.blocks).Nodup)
    (fresh : ∀ a ∈ path, a ∉ branches.flatMap Branch.blocks) :
    b.top.address ∉ path ∧ b.blocks.Nodup ∧
      ∀ a ∈ b.top.address :: path, a ∉ b.blocks.tail := by
  have inBlocks : b.blocks ⊆ branches.flatMap Branch.blocks := fun a inside =>
    List.mem_flatMap.mpr ⟨b, mem, inside⟩
  have top_mem : b.top.address ∈ b.blocks := by
    rw [head]
    exact List.mem_cons_self
  have nodupBelow : b.blocks.Nodup := (List.pairwise_flatMap.mp nodup).1 b mem
  refine ⟨fun onPath => fresh _ onPath (inBlocks top_mem), nodupBelow, ?_⟩
  intro a inside inTail
  rcases List.mem_cons.mp inside with same | onPath
  · rw [head] at nodupBelow
    exact (List.nodup_cons.mp nodupBelow).1 (same ▸ inTail)
  · exact fresh a onPath (inBlocks (List.mem_of_mem_tail inTail))

theorem no_childFault {reference : Reference} {parent child : Loaded} {level : Nat}
    (parent_level : parent.node.level.toNat = level + 1)
    (child_level : child.node.level.toNat = level) (not_root : child.node.isRoot = false) :
    childFault? reference parent child = none := by
  simp only [childFault?]
  rw [if_pos ⟨by omega, not_root⟩]

end Grown

namespace Navigator

variable {σ : Type} {I : σ → Prop} {nav : Navigator (Session σ)} {τ : Type}
  {order : KeyOrder τ} {view : KeyView order}

theorem yields_locateIn (trunk : Trunk) (here : Loaded) {target : τ} {how : Match}
    {place : Option Nat}
    (located : here.node.locate trunk.sizes order target how = .ok place) :
    Yields I (locateIn trunk order target how here) (match place with
      | some index => .ok index
      | none => .error (.keyNotFound s!"{order.describe target} in tree {trunk.root.text}")) := by
  apply Yields.bind (yields_decodedAt _ located)
  cases place with
  | some index => exact yields_pure index
  | none => exact yields_throw _

theorem yields_recordAt {trunk : Trunk} {here : Loaded} {index : Nat} {r : Record τ}
    (entry : LeafEntry view trunk.sizes here index r) :
    Yields I (recordAt trunk here index) (.ok (r.found.key, r.found.value)) :=
  Yields.bind (yields_decodedAt _ entry.key_eq)
    (Yields.bind (yields_decodedAt _ entry.value_eq) (yields_pure _))

theorem yields_step {trunk : Trunk} {path : List BlockAddress} {parent child : Loaded}
    {index : Nat} {oid : ObjectId} (pointer : parent.node.child trunk.sizes index = .ok oid)
    (read : nav.Answers I (trunk.root.sibling oid) child) (fresh : child.address ∉ path)
    (sound : childFault? (trunk.root.sibling oid) parent child = none) :
    Yields I (nav.step trunk path parent index) (.ok child) := by
  have pair : Yields I (nav.readChild trunk.root trunk.sizes parent index)
      (.ok (trunk.root.sibling oid, child)) :=
    Yields.bind (yields_decodedAt _ pointer) (Yields.bind read (yields_pure _))
  apply Yields.bind pair
  dsimp only
  rw [if_neg (by simpa using fresh), sound]
  exact Yields.bind (yields_pure _) (yields_pure _)

/-- A search of a leaf finds what a scan of its records finds. -/
theorem findBelow_leaf {trunk : Trunk} {target : τ} {how : Match} {here : Loaded}
    {path : List BlockAddress} {rightmost : Bool} {records : List (Record τ)}
    (count : here.node.keyCount = records.length)
    (entries : ∀ i (h : i < records.length), LeafEntry view trunk.sizes here i records[i])
    (ascending : view.Ascending (records.map Record.key)) :
    Yields I (nav.findBelow trunk order target how 0 path rightmost here)
      (answer order trunk.root target (view.scan records target (leafMatch how rightmost))) := by
  have keys := leaf_hasKeys count entries
  have located := Node.locate_of_keys keys ascending target (leafMatch how rightmost)
  have scanned := view.place_eq_scan ascending target (leafMatch how rightmost)
  rw [findBelow, ← scanned]
  cases place : view.place (records.map Record.key) target (leafMatch how rightmost) with
  | none =>
    rw [place] at located
    exact Yields.bind_error (yields_locateIn _ _ located)
  | some index =>
    rw [place] at located
    have h : index < records.length := by simpa using view.place_lt place
    have entry := entries index h
    rw [Option.bind_some, List.getElem?_eq_getElem h, answer, ← leaf_found entry]
    exact Yields.bind (yields_locateIn _ _ located)
      (Yields.bind (yields_recordAt entry) (yields_pure _))

theorem findBelow_scans {trunk : Trunk} {target : τ} {how : Match} :
    ∀ (level : Nat) {here : Loaded} {path : List BlockAddress} {rightmost : Bool}
      {records : List (Record τ)} {blocks : List BlockAddress},
      Grown (nav.Answers I) view trunk.root trunk.sizes level here records blocks →
      here.node.level.toNat = level → blocks.Nodup → (∀ a ∈ path, a ∉ blocks.tail) →
      view.Ascending (records.map Record.key) →
      Yields I (nav.findBelow trunk order target how level path rightmost here)
        (answer order trunk.root target (view.scan records target (leafMatch how rightmost))) := by
  intro level
  induction level with
  | zero =>
    intro here path rightmost records blocks grown _ _ _ ascending
    obtain ⟨-, count, entries⟩ := grown
    exact findBelow_leaf count entries ascending
  | succ level ih =>
    intro here path rightmost records blocks grown levelEq nodup fresh ascending
    obtain ⟨branches, rfl, rfl, count, below⟩ := grown
    have keys := index_hasKeys count fun i h => (below i h).1
    have located := Node.locate_of_keys keys (view.guides_ascending ascending) target .floor
    unfold findBelow
    cases low : (branches.map fun b => b.first.key).countP (view.atMost target) with
    | zero =>
      have nothing : view.scan (branches.flatMap Branch.records) target
          (leafMatch how rightmost) = none := by
        rw [view.scan_eq_filter ascending, view.floor_none ascending low]
        rfl
      simp only [KeyView.place, low] at located
      rw [nothing]
      exact Yields.bind_error (yields_locateIn _ _ located)
    | succ j =>
      have h : j < branches.length := by
        have le := List.countP_le_length (p := view.atMost target)
          (l := branches.map fun b => b.first.key)
        rw [List.length_map] at le
        omega
      obtain ⟨entry, grownBelow⟩ := below j h
      obtain ⟨oid, pointer, read⟩ := entry.pointer
      obtain ⟨newHere, nodupBelow, freshBelow⟩ :=
        fresh_below (head_block grownBelow) (List.getElem_mem h) (List.nodup_cons.mp nodup).2 fresh
      rw [view.place_floor low] at located
      -- The scan comes down to the same entry, so both go on below it.
      rw [view.scan_branch ascending h low, ← count]
      have sound : childFault? (trunk.root.sibling oid) here branches[j].top = none :=
        no_childFault levelEq entry.level_eq entry.not_root
      exact Yields.bind (yields_locateIn _ _ located)
        (Yields.bind (yields_step pointer read newHere sound)
          (ih grownBelow entry.level_eq nodupBelow freshBelow
            ((view.branches_pairwise ascending).1 _ (List.getElem_mem h))))

/-- A root that may be entered is handed on as the source hands it out. -/
theorem perform_rootNode_ok {root : Reference} {top : Loaded} {s s' : σ}
    (asked : (nav.source root).perform s = (.ok top, s')) (is_root : top.node.isRoot = true)
    (shallow : top.node.level ≤ nav.maxDepth) :
    (nav.rootNode root).perform s = (.ok top, s') := by
  rw [rootNode, bind_of_ok asked, is_root]
  simp only [UInt16.not_lt.mpr shallow, ↓reduceIte]
  rfl

theorem yields_rootNode {root : Reference} {top : Loaded} (read : nav.Answers I root top)
    (is_root : top.node.isRoot = true) (shallow : top.node.level ≤ nav.maxDepth) :
    Yields I (nav.rootNode root) (.ok top) := by
  intro s start
  obtain ⟨kept, answer⟩ := read s start
  rw [perform_rootNode_ok (Prod.ext answer rfl) is_root shallow]
  exact ⟨kept, rfl⟩

/-- In a tree whose keys ascend, a search finds what a scan of the records finds. -/
theorem find_scans {root : Reference} {top : Loaded} {records : List (Record τ)}
    {blocks : List BlockAddress}
    (tree : GrownTree (nav.Answers I) view root nav.maxDepth top records blocks) (target : τ)
    (how : Match) :
    Yields I (nav.find order root target how)
      (answer order root target (view.scan records target how)) := by
  have head := head_block tree.grown
  have nodup := tree.unshared
  apply Yields.bind (yields_rootNode tree.reads_top tree.is_root tree.shallow)
  have apart : ∀ a ∈ [top.address], a ∉ blocks.tail := by
    intro a mem inTail
    rw [head] at nodup
    exact (List.nodup_cons.mp nodup).1 (List.mem_singleton.mp mem ▸ inTail)
  have whole : Yields I (nav.findBelow (trunkOf root top) order target how
      top.node.level.toNat [top.address] true top)
      (answer order root target (view.scan records target (leafMatch how true))) :=
    findBelow_scans _ tree.grown rfl nodup apart tree.ascending
  simpa [leafMatch] using whole

end Navigator

end ObjectStore.Tree
