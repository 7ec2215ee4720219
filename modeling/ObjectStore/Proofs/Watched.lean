import ObjectStore.Proofs.Outcomes
import ObjectStore.Proofs.Records
import ObjectStore.Proofs.Simulations

/-
Searches and walks over a source that is watched: nothing is known of what it hands out, but
what it was asked for and what it answered is written down in order. Sources may be cyclic,
share nodes, change their answers and fail.
-/
namespace ObjectStore.Tree

open Session

structure Ask where
  reference : Reference
  outcome : Except StoreError Loaded

/-- The same navigator, which keeps the calls on its source with the last one at the end. -/
def Navigator.watched (nav : Navigator (Session σ)) : Navigator (Session (σ × List Ask)) where
  source reference := fun s =>
    let (outcome, left) := (nav.source reference).perform s.1
    (outcome, (left, s.2 ++ [⟨reference, outcome⟩]))
  maxDepth := nav.maxDepth

/-- What a source has come to by calls on it, with the last one at the end. -/
inductive Navigator.Asked (nav : Navigator (Session σ)) (s : σ) : σ → List Ask → Prop where
  | start : nav.Asked s s []
  | ask {before later : σ} {asks : List Ask} {reference : Reference}
      {outcome : Except StoreError Loaded} (earlier : nav.Asked s before asks)
      (run : (nav.source reference).perform before = (outcome, later)) :
      nav.Asked s later (asks ++ [⟨reference, outcome⟩])

/-- How the step to a child comes out: what is asked of the source, and the child or an error.
A child that lies on the path closes a cycle, whatever else is wrong with it. -/
inductive Stepped (limit : UInt16) (trunk : Trunk) (path : List BlockAddress) (parent : Loaded)
    (index : Nat) : List Ask → Except StoreError Loaded → Prop where
  | undecoded {e : DecodeError} (pointer : parent.node.child trunk.sizes index = .error e) :
      Stepped limit trunk path parent index [] (.error (e.atBlock parent.address))
  | unread {oid : ObjectId} (pointer : parent.node.child trunk.sizes index = .ok oid)
      (e : StoreError) :
      Stepped limit trunk path parent index [⟨trunk.root.sibling oid, .error e⟩] (.error e)
  | cycle {oid : ObjectId} {child : Loaded}
      (pointer : parent.node.child trunk.sizes index = .ok oid) (again : child.address ∈ path) :
      Stepped limit trunk path parent index [⟨trunk.root.sibling oid, .ok child⟩]
        (.error (.treeTooDeep trunk.address limit))
  | misplaced {oid : ObjectId} {child : Loaded} {detail : String}
      (pointer : parent.node.child trunk.sizes index = .ok oid) (new : child.address ∉ path)
      (wrong : child.node.level.toNat + 1 ≠ parent.node.level.toNat ∨ child.node.isRoot = true)
      (fault : childFault? (trunk.root.sibling oid) parent child
        = some (.corrupt child.address detail)) :
      Stepped limit trunk path parent index [⟨trunk.root.sibling oid, .ok child⟩]
        (.error (.corrupt child.address detail))
  | entered {oid : ObjectId} {child : Loaded}
      (pointer : parent.node.child trunk.sizes index = .ok oid) (new : child.address ∉ path)
      (level_eq : child.node.level.toNat + 1 = parent.node.level.toNat)
      (not_root : child.node.isRoot = false) :
      Stepped limit trunk path parent index [⟨trunk.root.sibling oid, .ok child⟩] (.ok child)

inductive Rooted (limit : UInt16) (root : Reference) :
    List Ask → Except StoreError Loaded → Prop where
  | unread (e : StoreError) : Rooted limit root [⟨root, .error e⟩] (.error e)
  | notRoot {top : Loaded} (not_root : top.node.isRoot = false) :
      Rooted limit root [⟨root, .ok top⟩]
        (.error (.corrupt top.address s!"{root.text} is not a B-tree root node"))
  | tooDeep {top : Loaded} (is_root : top.node.isRoot = true) (deep : limit < top.node.level) :
      Rooted limit root [⟨root, .ok top⟩] (.error (.treeTooDeep top.address limit))
  | entered {top : Loaded} (is_root : top.node.isRoot = true) (shallow : top.node.level ≤ limit) :
      Rooted limit root [⟨root, .ok top⟩] (.ok top)

/-- Only an index node has children. -/
theorem Node.level_of_child {n : Node} {sizes : Option EntrySizes} {index : Nat} {oid : ObjectId}
    (pointer : n.child sizes index = .ok oid) : n.isLeaf = false ∧ 0 < n.level.toNat := by
  obtain ⟨inner, -⟩ := checked_eq_ok.mp pointer
  have not_leaf : n.isLeaf = false := by simpa using inner
  refine ⟨not_leaf, Nat.pos_of_ne_zero fun zero => ?_⟩
  exact absurd (Node.leaf_of_level zero) (ne_true_of_eq_false not_leaf)

theorem childFault?_cases {reference : Reference} {parent child : Loaded}
    (inner : 0 < parent.node.level.toNat) :
    (childFault? reference parent child = none ∧
      child.node.level.toNat + 1 = parent.node.level.toNat ∧ child.node.isRoot = false) ∨
    ∃ detail, childFault? reference parent child = some (.corrupt child.address detail) ∧
      (child.node.level.toNat + 1 ≠ parent.node.level.toNat ∨ child.node.isRoot = true) := by
  simp only [childFault?]
  by_cases sound : child.node.level.toNat = parent.node.level.toNat - 1 ∧
      child.node.isRoot = false
  · rw [if_pos sound]
    exact .inl ⟨rfl, by omega, sound.2⟩
  · rw [if_neg sound]
    refine .inr ⟨_, rfl, ?_⟩
    by_cases root : child.node.isRoot = true
    · exact .inr root
    · exact .inl fun same => sound ⟨by omega, by simpa using root⟩

namespace Navigator

variable {σ τ : Type} {nav : Navigator (Session σ)}

theorem watched_agrees (nav : Navigator (Session σ)) :
    nav.watched.Agrees (fun _ => True) (fun s t => s.1 = t) nav := by
  refine ⟨rfl, fun reference => ⟨fun _ _ => trivial, fun s t same _ => ?_⟩⟩
  subst same
  exact ⟨rfl, rfl⟩

theorem perform_watched (reference : Reference) (s : σ) (asks : List Ask) :
    (nav.watched.source reference).perform (s, asks) =
      (((nav.source reference).perform s).1, (((nav.source reference).perform s).2,
        asks ++ [⟨reference, ((nav.source reference).perform s).1⟩])) := rfl

theorem asked_watched (nav : Navigator (Session σ)) (s : σ) (reference : Reference) :
    Ensures (fun t : σ × List Ask => nav.Asked s t.1 t.2) (nav.watched.source reference)
      fun _ => True :=
  fun _ earlier => ⟨earlier.ask rfl, fun _ _ => trivial⟩

/-- What is so of every answer of a source is so of all that it has answered. -/
theorem Asked.answered {I : σ → Prop} {P : Reference → Except StoreError Loaded → Prop}
    (each : ∀ reference, Run I (nav.source reference) (P reference)) {s later : σ}
    {asks : List Ask} (asked : nav.Asked s later asks) (start : I s) :
    I later ∧ ∀ ask ∈ asks, P ask.reference ask.outcome := by
  induction asked with
  | start => exact ⟨start, by simp⟩
  | @ask before later asks reference outcome earlier run ih =>
    obtain ⟨kept, holds⟩ := each reference before ih.1
    rw [run] at kept holds
    refine ⟨kept, fun ask mem => ?_⟩
    rcases List.mem_append.mp mem with known | last
    · exact ih.2 ask known
    · rw [List.mem_singleton.mp last]
      exact holds

/-- Each call was made when those before it had been made. -/
theorem Asked.at_call {s later : σ} {asks : List Ask} (asked : nav.Asked s later asks) {ask : Ask}
    (mem : ask ∈ asks) : ∃ earlier before after, nav.Asked s before earlier ∧
      (nav.source ask.reference).perform before = (ask.outcome, after) ∧
      earlier ++ [ask] <+: asks := by
  induction asked with
  | start => cases mem
  | ask earlier run ih =>
    rcases List.mem_append.mp mem with known | last
    · obtain ⟨first, before, after, made, same, front⟩ := ih known
      exact ⟨first, before, after, made, same, front.trans (List.prefix_append _ _)⟩
    · rw [List.mem_singleton.mp last]
      exact ⟨_, _, _, earlier, run, List.prefix_refl _⟩

theorem perform_locateIn (trunk : Trunk) (order : KeyOrder τ) (target : τ) (how : Match)
    (here : Loaded) (s : σ) : (locateIn trunk order target how here : Session σ Nat).perform s
      = (locateIn trunk order target how here, s) := by
  unfold locateIn
  rcases here.node.locate trunk.sizes order target how with e | _ | index <;> rfl

theorem perform_recordAt (trunk : Trunk) (here : Loaded) (index : Nat) (s : σ) :
    (recordAt trunk here index : Session σ (Bytes × Bytes)).perform s
      = (recordAt trunk here index, s) := by
  unfold recordAt
  rcases here.node.key trunk.sizes index with e | key
  · rfl
  · rcases here.node.value trunk.sizes index with e | value <;> rfl

theorem perform_rootNode (nav : Navigator (Session σ)) (root : Reference) (s : σ)
    (asks : List Ask) :
    ∃ s' new result, (nav.watched.rootNode root).perform (s, asks) = (result, (s', asks ++ new)) ∧
      Rooted nav.maxDepth root new result := by
  have asked := nav.perform_watched root s asks
  rcases called : (nav.source root).perform s with ⟨e | top, s'⟩
  · rw [called] at asked
    exact ⟨s', _, _, bind_of_error asked, .unread e⟩
  · rw [called] at asked
    rw [rootNode, bind_of_ok asked]
    by_cases is_root : top.node.isRoot = true
    · simp only [is_root, Bool.not_true, Bool.false_eq_true, ↓reduceIte]
      by_cases deep : nav.maxDepth < top.node.level
      · refine ⟨s', _, _, ?_, .tooDeep is_root deep⟩
        rw [if_pos (show nav.watched.maxDepth < top.node.level from deep)]
        rfl
      · refine ⟨s', _, _, ?_, .entered is_root (UInt16.not_lt.mp deep)⟩
        rw [if_neg (show ¬nav.watched.maxDepth < top.node.level from deep)]
        rfl
    · have not_root : top.node.isRoot = false := by simpa using is_root
      refine ⟨s', _, _, ?_, .notRoot not_root⟩
      simp only [not_root, Bool.not_false, ↓reduceIte]
      rfl

/-- A step asks its source for the child at most, and for nothing else. -/
theorem perform_step (nav : Navigator (Session σ)) (trunk : Trunk) (path : List BlockAddress)
    (parent : Loaded) (index : Nat) (s : σ) (asks : List Ask) :
    ∃ s' new result, (nav.watched.step trunk path parent index).perform (s, asks)
        = (result, (s', asks ++ new)) ∧
      Stepped nav.maxDepth trunk path parent index new result := by
  cases pointer : parent.node.child trunk.sizes index with
  | error e =>
    refine ⟨s, [], _, ?_, .undecoded pointer⟩
    rw [List.append_nil, step, readChild, pointer]
    exact bind_of_error (bind_of_error rfl)
  | ok oid =>
    have inner := (Node.level_of_child pointer).2
    have asked := nav.perform_watched (trunk.root.sibling oid) s asks
    rcases called : (nav.source (trunk.root.sibling oid)).perform s with ⟨e | child, s'⟩
    · rw [called] at asked
      refine ⟨s', _, _, ?_, .unread pointer e⟩
      rw [step, readChild, pointer]
      exact bind_of_error ((bind_of_ok rfl).trans (bind_of_error asked))
    · rw [called] at asked
      have read : (nav.watched.readChild trunk.root trunk.sizes parent index).perform (s, asks)
          = (.ok (trunk.root.sibling oid, child),
              (s', asks ++ [⟨trunk.root.sibling oid, .ok child⟩])) := by
        rw [readChild, pointer]
        exact (bind_of_ok rfl).trans (bind_of_ok asked)
      rw [step, bind_of_ok read]
      by_cases again : child.address ∈ path
      · refine ⟨s', _, _, ?_, .cycle pointer again⟩
        dsimp only
        rw [if_pos (List.contains_iff_mem.mpr again)]
        rfl
      · dsimp only
        rw [if_neg fun inside => again (List.contains_iff_mem.mp inside)]
        rcases childFault?_cases inner with ⟨sound, level_eq, not_root⟩ | ⟨detail, fault, wrong⟩
        · refine ⟨s', _, _, ?_, .entered pointer again level_eq not_root⟩
          rw [sound]
          rfl
        · refine ⟨s', _, _, ?_, .misplaced pointer again wrong fault⟩
          rw [fault]
          rfl

end Navigator

end ObjectStore.Tree
