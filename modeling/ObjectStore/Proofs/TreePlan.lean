import ObjectStore.Draft.Tree
import ObjectStore.Proofs.BuiltNode
import ObjectStore.Proofs.Records

/-
Trees that are planned level by level. What a group of entries stands for is known before its
node is built: the records below it and the numbers of the nodes below it. One level is turned
into the next by joining the parts of every chunk.
-/
namespace ObjectStore

open ObjectStore.Tree

/-- Elements chosen for those of a list, one by one. -/
theorem exists_pairs {α β : Type} {R : α → β → Prop} {l : List α}
    (each : ∀ a ∈ l, ∃ b, R a b) :
    ∃ pairs : List (α × β), pairs.map Prod.fst = l ∧ ∀ p ∈ pairs, R p.1 p.2 := by
  induction l with
  | nil => exact ⟨[], rfl, by simp⟩
  | cons a l ih =>
    obtain ⟨b, first⟩ := each a List.mem_cons_self
    obtain ⟨pairs, same, later⟩ := ih fun x mem => each x (List.mem_cons_of_mem _ mem)
    refine ⟨(a, b) :: pairs, by rw [List.map_cons, same], fun p mem => ?_⟩
    rcases List.mem_cons.mp mem with here | there
    · rw [here]
      exact first
    · exact later p there

section Chunks

variable {α β : Type} (n : Nat)

theorem chunks_flatten (l : List α) : (chunks n l).flatten = l := by
  induction l using chunks.induct n with
  | case1 => simp [chunks]
  | case2 a rest ih => rw [chunks, List.flatten_cons, ih, List.cons_append, List.take_append_drop]

theorem ne_nil_of_mem_chunks {l : List α} {c : List α} (mem : c ∈ chunks n l) : c ≠ [] := by
  induction l using chunks.induct n with
  | case1 => simp [chunks] at mem
  | case2 a rest ih =>
    unfold chunks at mem
    rcases List.mem_cons.mp mem with here | there
    · rw [here]
      exact List.cons_ne_nil _ _
    · exact ih there

theorem mem_of_mem_chunks {l : List α} {c : List α} (mem : c ∈ chunks n l) {a : α}
    (inside : a ∈ c) : a ∈ l := by
  rw [← chunks_flatten n l]
  exact List.mem_flatten.mpr ⟨c, mem, inside⟩

theorem chunks_map (f : α → β) (l : List α) :
    chunks n (l.map f) = (chunks n l).map (List.map f) := by
  induction l using chunks.induct n with
  | case1 => simp [chunks]
  | case2 a rest ih =>
    rw [List.map_cons, chunks, chunks, List.map_cons, List.map_cons, List.map_take, ← List.map_drop,
      ih]

theorem chunks_flatMap (f : α → List β) (l : List α) :
    (chunks n l).flatMap (fun c => c.flatMap f) = l.flatMap f := by
  conv => rhs; rw [← chunks_flatten n l, ← List.flatMap_id, List.flatMap_assoc]
  rfl

theorem chunks_ne_nil {l : List α} (some_there : l ≠ []) : chunks n l ≠ [] := by
  cases l with
  | nil => contradiction
  | cons a rest =>
    unfold chunks
    exact List.cons_ne_nil _ _

/-- Every level has at most half as many nodes as the one below it, the last not counted. -/
theorem chunks_halve {n : Nat} (wide : 2 ≤ n) (l : List α) :
    2 * ((chunks n l).length - 1) ≤ l.length - 1 := by
  induction l using chunks.induct n with
  | case1 => simp [chunks]
  | case2 a rest ih =>
    rw [chunks, List.length_cons, List.length_cons]
    rw [List.length_drop] at ih
    cases later : rest.drop (n - 1) with
    | nil => simp [chunks]
    | cons b more =>
      have some_later := congrArg List.length later
      rw [List.length_drop, List.length_cons] at some_later
      rw [← later]
      have some_chunk : 0 < (chunks n (rest.drop (n - 1))).length := by
        rw [List.length_pos_iff]
        exact chunks_ne_nil n (by rw [later]; exact List.cons_ne_nil _ _)
      omega

end Chunks

namespace TreeDraft

section Plan

variable (d : TreeDraft) (wide : 2 ≤ d.fanout)

theorem planFrom_one {level next : Nat} {groups : List (List Entry)}
    (one : groups.length ≤ 1) :
    d.planFrom wide level next groups = ([], ⟨next, level, true, groups.headD []⟩) := by
  rw [planFrom, if_pos one]

theorem planFrom_more {level next : Nat} {groups : List (List Entry)}
    (many : ¬groups.length ≤ 1) {above : List PlannedNode} {root : PlannedNode}
    (upper : d.planFrom wide (level + 1) (next + groups.length)
      (chunks d.fanout ((planLevel level next groups).map d.pointerTo)) = (above, root)) :
    d.planFrom wide level next groups = (planLevel level next groups ++ above, root) := by
  rw [planFrom, if_neg many]
  dsimp only
  rw [upper]

theorem length_planLevel (level next : Nat) (groups : List (List Entry)) :
    (planLevel level next groups).length = groups.length := by
  simp [planLevel]

/-- The nodes of a level that is not empty are pointed to from the level above. -/
theorem chunks_planLevel_ne_nil (d : TreeDraft) (level next : Nat) {groups : List (List Entry)}
    (some_there : groups ≠ []) :
    chunks d.fanout ((planLevel level next groups).map d.pointerTo) ≠ [] := by
  refine chunks_ne_nil _ fun none_there => some_there ?_
  have length_eq := congrArg List.length none_there
  rw [List.length_map, length_planLevel] at length_eq
  exact List.length_eq_zero_iff.mp length_eq

theorem index_planLevel (level next : Nat) (groups : List (List Entry)) :
    (planLevel level next groups).map PlannedNode.index = List.range' next groups.length := by
  apply List.ext_getElem
  · simp [planLevel]
  · intro i _ _
    simp [planLevel]

/-- The nodes are numbered one after the other, the root last. -/
theorem index_planFrom (level next : Nat) (groups : List (List Entry)) :
    ((d.planFrom wide level next groups).1 ++ [(d.planFrom wide level next groups).2]).map
        PlannedNode.index
      = List.range' next ((d.planFrom wide level next groups).1.length + 1) := by
  induction level, next, groups using planFrom.induct d wide with
  | case1 level next groups one =>
    rw [d.planFrom_one wide one]
    rfl
  | case2 level next groups many here above root upper ih =>
    rw [upper] at ih
    rw [d.planFrom_more wide many upper]
    dsimp only at ih ⊢
    rw [List.append_assoc, List.map_append, index_planLevel, ih, List.length_append,
      length_planLevel, Nat.add_assoc]
    exact List.range'_append_1

/-- A level of few nodes has few levels above it. -/
def reach : Nat → Nat
  | 0 => 1
  | n + 1 => 2 * reach n

theorem level_planFrom (n level next : Nat) (groups : List (List Entry))
    (few : groups.length - 1 < reach n) :
    (∀ p ∈ (d.planFrom wide level next groups).1, p.level ≤ level + n) ∧
      (d.planFrom wide level next groups).2.level ≤ level + n := by
  induction n generalizing level next groups with
  | zero =>
    unfold reach at few
    rw [d.planFrom_one wide (by omega)]
    exact ⟨by simp, Nat.le_refl _⟩
  | succ n ih =>
    by_cases one : groups.length ≤ 1
    · rw [d.planFrom_one wide one]
      exact ⟨by simp, Nat.le_add_right _ _⟩
    · have halved := chunks_halve wide ((planLevel level next groups).map d.pointerTo)
      rw [List.length_map, length_planLevel] at halved
      unfold reach at few
      rcases upper : d.planFrom wide (level + 1) (next + groups.length)
        (chunks d.fanout ((planLevel level next groups).map d.pointerTo)) with ⟨above, root⟩
      have later := ih (level + 1) (next + groups.length)
        (chunks d.fanout ((planLevel level next groups).map d.pointerTo)) (by omega)
      rw [upper] at later
      rw [d.planFrom_more wide one upper]
      dsimp only at later ⊢
      refine ⟨fun p mem => ?_, by omega⟩
      rcases List.mem_append.mp mem with here | there
      · simp only [planLevel, List.mem_map] at here
        obtain ⟨_, -, same⟩ := here
        rw [← same]
        exact Nat.le_add_right _ _
      · have := later.1 p there
        omega

end Plan

end TreeDraft

end ObjectStore
