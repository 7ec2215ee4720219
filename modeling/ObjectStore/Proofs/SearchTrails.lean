import Mathlib.Data.List.Chain
import ObjectStore.Proofs.Descents
import ObjectStore.Proofs.Watched

/-
The way a search takes through whatever a source hands out. A child is entered only one level
below its parent, so the level of the root bounds the way; a child that is reached again is told
apart from one at a wrong level, since only the former can lie on the way down to it.
-/
namespace ObjectStore.Tree

open Session

/-- A new node, and behind it others that were entered after it. -/
theorem distinct_cons {entered : List BlockAddress} {child : Loaded} {nodes : List Loaded}
    (new : child.address ∉ entered) (distinct : (nodes.map Loaded.address).Nodup)
    (apart : ∀ n ∈ nodes, n.address ∉ child.address :: entered) :
    ((child :: nodes).map Loaded.address).Nodup ∧ ∀ n ∈ child :: nodes, n.address ∉ entered := by
  constructor
  · rw [List.map_cons, List.nodup_cons]
    refine ⟨fun inside => ?_, distinct⟩
    obtain ⟨n, mem, same⟩ := List.mem_map.mp inside
    exact apart n mem (same ▸ List.mem_cons_self)
  · intro n mem
    rcases List.mem_cons.mp mem with same | later
    · exact same ▸ new
    · exact fun before => apart n later (List.mem_cons_of_mem _ before)

def foundIn (trunk : Trunk) (order : KeyOrder τ) (target : τ) (how : Match) (leaf : Loaded) :
    Except StoreError Found := do
  let index ← Navigator.locateIn trunk order target how leaf
  let (key, value) ← Navigator.recordAt trunk leaf index
  return ⟨key, value, index, leaf.address⟩

def guideIn (trunk : Trunk) (order : KeyOrder τ) (target : τ) (here : Loaded) :
    Except StoreError Nat :=
  Navigator.locateIn trunk order target .floor here

/-- A search that has come to `here` by way of `path`: what it asks of the source from there, the
nodes it enters below, and how it ends. -/
inductive Trail (limit : UInt16) (trunk : Trunk) (order : KeyOrder τ) (target : τ) (how : Match) :
    Bool → List BlockAddress → Loaded → List Ask → List Loaded →
      Except StoreError Found → Prop where
  | leaf {rightmost : Bool} {path : List BlockAddress} {here : Loaded}
      (is_leaf : here.node.isLeaf = true) :
      Trail limit trunk order target how rightmost path here [] []
        (foundIn trunk order target (leafMatch how rightmost) here)
  | lost {rightmost : Bool} {path : List BlockAddress} {here : Loaded} {e : StoreError}
      (inner : here.node.isLeaf = false)
      (located : guideIn trunk order target here = .error e) :
      Trail limit trunk order target how rightmost path here [] [] (.error e)
  | stopped {rightmost : Bool} {path : List BlockAddress} {here : Loaded} {index : Nat}
      {asks : List Ask} {e : StoreError} (inner : here.node.isLeaf = false)
      (located : guideIn trunk order target here = .ok index)
      (step : Stepped limit trunk path here index asks (.error e)) :
      Trail limit trunk order target how rightmost path here asks [] (.error e)
  | child {rightmost : Bool} {path : List BlockAddress} {here child : Loaded} {index : Nat}
      {asks more : List Ask} {entered : List Loaded} {result : Except StoreError Found}
      (inner : here.node.isLeaf = false)
      (located : guideIn trunk order target here = .ok index)
      (step : Stepped limit trunk path here index asks (.ok child))
      (below : Trail limit trunk order target how
        (rightmost && index + 1 == here.node.keyCount) (child.address :: path) child more entered
        result) :
      Trail limit trunk order target how rightmost path here (asks ++ more) (child :: entered)
        result

inductive Searched (limit : UInt16) (order : KeyOrder τ) (root : Reference) (target : τ)
    (how : Match) : List Ask → List Loaded → Except StoreError Found → Prop where
  | refused {asks : List Ask} {e : StoreError} (start : Rooted limit root asks (.error e)) :
      Searched limit order root target how asks [] (.error e)
  | below {asks more : List Ask} {top : Loaded} {entered : List Loaded}
      {result : Except StoreError Found} (start : Rooted limit root asks (.ok top))
      (trail : Trail limit (Navigator.trunkOf root top) order target how true [top.address] top
        more entered result) :
      Searched limit order root target how (asks ++ more) (top :: entered) result

/-- The nodes on the way of a search, the root first. -/
structure EnteredInTurn (limit : UInt16) (entered : List Loaded) : Prop where
  distinct : (entered.map Loaded.address).Nodup
  descending : entered.IsChain fun parent child =>
    child.node.level.toNat + 1 = parent.node.level.toNat
  root_first : ∀ i (h : i < entered.length), entered[i].node.isRoot = true ↔ i = 0
  shallow : ∀ top ∈ entered.head?, top.node.level ≤ limit

section

variable {τ : Type} {limit : UInt16} {trunk : Trunk} {order : KeyOrder τ} {root : Reference}
  {target : τ} {how : Match}

theorem Stepped.length_le {path : List BlockAddress} {parent : Loaded} {index : Nat}
    {asks : List Ask} {result : Except StoreError Loaded}
    (step : Stepped limit trunk path parent index asks result) : asks.length ≤ 1 := by
  cases step <;> simp

theorem Stepped.inner {path : List BlockAddress} {parent : Loaded} {index : Nat}
    {asks : List Ask} {result : Except StoreError Loaded}
    (step : Stepped limit trunk path parent index asks result) :
    asks = [] ∨ 0 < parent.node.level.toNat := by
  cases step with
  | undecoded pointer => exact .inl rfl
  | unread pointer e => exact .inr (Node.level_of_child pointer).2
  | cycle pointer again => exact .inr (Node.level_of_child pointer).2
  | misplaced pointer new wrong fault => exact .inr (Node.level_of_child pointer).2
  | entered pointer new level_eq not_root => exact .inr (Node.level_of_child pointer).2

/-- A search asks for no more nodes than there are levels below it. -/
theorem Trail.length_le {rightmost : Bool} {path : List BlockAddress} {here : Loaded}
    {asks : List Ask} {entered : List Loaded} {result : Except StoreError Found}
    (trail : Trail limit trunk order target how rightmost path here asks entered result) :
    asks.length ≤ here.node.level.toNat := by
  induction trail with
  | leaf is_leaf => simp
  | lost inner located => simp
  | stopped inner located step =>
    have one := step.length_le
    rcases step.inner with none | some
    · simp [none]
    · omega
  | child inner located step below ih =>
    have one := step.length_le
    cases step with
    | entered pointer new level_eq not_root =>
      rw [List.length_append]
      omega

theorem Trail.entered_in_turn {rightmost : Bool} {path : List BlockAddress} {here : Loaded}
    {asks : List Ask} {entered : List Loaded} {result : Except StoreError Found}
    (trail : Trail limit trunk order target how rightmost path here asks entered result) :
    (entered.map Loaded.address).Nodup ∧ (∀ n ∈ entered, n.address ∉ path) ∧
      (here :: entered).IsChain (fun parent child =>
        child.node.level.toNat + 1 = parent.node.level.toNat) ∧
      ∀ n ∈ entered, n.node.isRoot = false := by
  induction trail with
  | leaf is_leaf => simp
  | lost inner located => simp
  | stopped inner located step => simp
  | child inner located step below ih =>
    obtain ⟨distinct, apart, descending, below_root⟩ := ih
    cases step with
    | @entered oid child pointer new level_eq not_root =>
      obtain ⟨distinct, apart⟩ := distinct_cons new distinct apart
      refine ⟨distinct, apart, ?_, ?_⟩
      · exact List.isChain_cons_cons.mpr ⟨level_eq, descending⟩
      · intro n mem
        rcases List.mem_cons.mp mem with same | later
        · exact same ▸ not_root
        · exact below_root n later

theorem Searched.entered_in_turn {asks : List Ask} {entered : List Loaded}
    {result : Except StoreError Found}
    (searched : Searched limit order root target how asks entered result) :
    EnteredInTurn limit entered := by
  cases searched with
  | refused start => exact ⟨by simp, by simp, by simp, by simp⟩
  | @below asks more top entered result start trail =>
    obtain ⟨distinct, apart, descending, below_root⟩ := trail.entered_in_turn
    cases start with
    | entered is_root shallow =>
      refine ⟨?_, descending, ?_, by simpa using shallow⟩
      · simp only [List.map_cons, List.nodup_cons]
        refine ⟨fun inside => ?_, distinct⟩
        obtain ⟨n, mem, same⟩ := List.mem_map.mp inside
        exact apart n mem (by simp [same])
      · intro i h
        cases i with
        | zero => simpa using is_root
        | succ i => simpa using below_root _ (List.getElem_mem _)

theorem Searched.length_le {asks : List Ask} {entered : List Loaded}
    {result : Except StoreError Found}
    (searched : Searched limit order root target how asks entered result) :
    asks.length ≤ limit.toNat + 1 ∧
      ∀ top, asks.head? = some ⟨root, .ok top⟩ → asks.length ≤ top.node.level.toNat + 1 := by
  cases searched with
  | refused start => cases start <;> simp
  | below start trail =>
    have few := trail.length_le
    cases start with
    | entered is_root shallow =>
      have := UInt16.le_iff_toNat_le.mp shallow
      refine ⟨?_, ?_⟩
      · simp
        omega
      · simpa using few

end

namespace Navigator

variable {σ τ : Type}

theorem perform_findBelow (nav : Navigator (Session σ)) (trunk : Trunk) (order : KeyOrder τ)
    (target : τ) (how : Match) :
    ∀ (level : Nat) (path : List BlockAddress) (rightmost : Bool) (here : Loaded) (s : σ)
      (asks : List Ask), here.node.level.toNat = level →
      ∃ s' new entered result,
        (nav.watched.findBelow trunk order target how level path rightmost here).perform (s, asks)
          = (result, (s', asks ++ new)) ∧
        Trail nav.maxDepth trunk order target how rightmost path here new entered result := by
  intro level
  induction level with
  | zero =>
    intro path rightmost here s asks level_eq
    have is_leaf := Node.leaf_of_level level_eq
    refine ⟨s, [], [], _, ?_, .leaf is_leaf⟩
    have located := perform_locateIn trunk order target (leafMatch how rightmost) here (s, asks)
    rw [List.append_nil, findBelow, foundIn]
    cases place : (locateIn trunk order target (leafMatch how rightmost) here
      : Except StoreError Nat) with
    | error e => exact bind_of_error (located.trans (by rw [place]))
    | ok index =>
      have read := perform_recordAt trunk here index (s, asks)
      refine (bind_of_ok (located.trans (by rw [place]))).trans ?_
      simp only [ok_bind]
      cases record : (recordAt trunk here index : Except StoreError (Bytes × Bytes)) with
      | error e => exact bind_of_error (read.trans (by rw [record]))
      | ok pair => exact bind_of_ok (read.trans (by rw [record]))
  | succ level ih =>
    intro path rightmost here s asks level_eq
    have inner := Node.inner_of_level level_eq
    have located : Session.perform (locateIn trunk order target .floor here) (s, asks)
        = (guideIn trunk order target here, (s, asks)) := perform_locateIn _ _ _ _ _ _
    cases place : guideIn trunk order target here with
    | error e =>
      refine ⟨s, [], [], _, ?_, .lost inner place⟩
      rw [List.append_nil]
      exact bind_of_error (located.trans (by rw [place]))
    | ok index =>
      obtain ⟨s', new, result, run, step⟩ := perform_step nav trunk path here index s asks
      have begun := bind_of_ok (located.trans (by rw [place]))
        (f := fun index => nav.watched.step trunk path here index >>= fun child =>
          nav.watched.findBelow trunk order target how level (child.address :: path)
            (rightmost && index + 1 == here.node.keyCount) child)
      cases result with
      | error e =>
        exact ⟨s', new, [], _, begun.trans (bind_of_error run), .stopped inner place step⟩
      | ok child =>
        have child_level : child.node.level.toNat = level := by
          cases step with
          | entered pointer new level_eq' not_root => omega
        obtain ⟨s'', more, entered, result, rest, trail⟩ := ih (child.address :: path)
          (rightmost && index + 1 == here.node.keyCount) child s' (asks ++ new) child_level
        refine ⟨s'', new ++ more, child :: entered, result, ?_, .child inner place step trail⟩
        rw [← List.append_assoc]
        exact begun.trans ((bind_of_ok run).trans rest)

/-- A search as it runs, and what it does as it is watched. The first node that it enters is the
root, if that may be entered. -/
theorem perform_find (nav : Navigator (Session σ)) (order : KeyOrder τ) (root : Reference)
    (target : τ) (how : Match) (s : σ) :
    ∃ later asks entered result,
      (nav.find order root target how).perform s = (result, later) ∧
      (nav.watched.find order root target how).perform (s, []) = (result, (later, asks)) ∧
      Searched nav.maxDepth order root target how asks entered result ∧
      entered.head? = ((nav.rootNode root).perform s).1.toOption := by
  obtain ⟨same_root, -⟩ :=
    (simulates_rootNode nav.watched_agrees root).agree (s, []) s rfl trivial
  have watched : ∃ later asks entered result,
      (nav.watched.find order root target how).perform (s, []) = (result, (later, asks)) ∧
        Searched nav.maxDepth order root target how asks entered result ∧
        entered.head? = ((nav.rootNode root).perform s).1.toOption := by
    obtain ⟨s', new, result, run, start⟩ := perform_rootNode nav root s []
    rw [← same_root, run]
    cases result with
    | error e => exact ⟨s', new, [], _, bind_of_error run, .refused start, rfl⟩
    | ok top =>
      obtain ⟨s'', more, entered, result, rest, trail⟩ := perform_findBelow nav (trunkOf root top)
        order target how _ [top.address] true top s' ([] ++ new) rfl
      exact ⟨s'', new ++ more, top :: entered, result, (bind_of_ok run).trans rest,
        .below start trail, rfl⟩
  obtain ⟨later, asks, entered, result, run, searched⟩ := watched
  obtain ⟨same, left⟩ := (simulates_find nav.watched_agrees order root target how).agree
    (s, []) s rfl trivial
  rw [run] at same left
  exact ⟨later, asks, entered, result, Prod.ext same.symm left.symm, run, searched⟩

theorem find_asked {nav : Navigator (Session σ)} {order : KeyOrder τ} {root : Reference}
    {target : τ} {how : Match} {s later : σ} {asks : List Ask} {result : Except StoreError Found}
    (run : (nav.watched.find order root target how).perform (s, []) = (result, (later, asks))) :
    nav.Asked s later asks := by
  have asked : Ensures (fun t : σ × List Ask => nav.Asked s t.1 t.2)
      (nav.watched.find order root target how) fun _ => True :=
    ensures_find root (fun _ => asked_watched nav s _) target how
  have asked := (asked (s, []) .start).1
  rw [run] at asked
  exact asked

/-- Every search ends, whatever its source hands out, after as many calls on it as the root has
levels at most. The nodes it enters lie at distinct addresses, each one level below the one before
it, and only the first is a root; what the search then comes to says where it was stopped. -/
theorem find_keeps_descending (nav : Navigator (Session σ)) (order : KeyOrder τ)
    (root : Reference) (target : τ) (how : Match) (s : σ) :
    ∃ asks entered,
      (nav.watched.find order root target how).perform (s, []) =
        (((nav.find order root target how).perform s).1,
          ((nav.find order root target how).perform s).2, asks) ∧
      asks.length ≤ nav.maxDepth.toNat + 1 ∧
      (∀ top, asks.head? = some ⟨root, .ok top⟩ → asks.length ≤ top.node.level.toNat + 1) ∧
      EnteredInTurn nav.maxDepth entered ∧
      Searched nav.maxDepth order root target how asks entered
        ((nav.find order root target how).perform s).1 := by
  obtain ⟨later, asks, entered, result, run, watched, searched, -⟩ :=
    perform_find nav order root target how s
  rw [run]
  exact ⟨asks, entered, watched, searched.length_le.1, searched.length_le.2,
    searched.entered_in_turn, searched⟩

end Navigator

end ObjectStore.Tree
