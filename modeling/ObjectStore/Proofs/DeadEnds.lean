import ObjectStore.Proofs.NodesAsOf
import ObjectStore.Proofs.RecordFaults

/-
Where searches and walks end that report something as not found. Either it is their own report,
of an entry that is not there, or their source has made it of a node, and they pass it on.
-/
namespace ObjectStore

/-- What does not decode is damaged or foreign, never absent. -/
theorem DecodeError.not_absent (d : DecodeError) (block : BlockAddress) :
    ¬(d.atBlock block).isNotFound = true := by
  cases d <;> exact Bool.false_ne_true

namespace Tree

open Session

/-- A search settles on no entry of a node. Where the keys ascend, a scan of all its entries finds
none either; where they do not, there may be an entry that the search has not looked at. -/
structure Unmatched (sizes : Option EntrySizes) (order : KeyOrder τ) (target : τ) (how : Match)
    (n : Node) : Prop where
  located : n.locate sizes order target how = .ok none
  scanned : ∀ (view : KeyView order) (records : List (Record τ)),
    n.HasKeys sizes view (records.map Record.key) →
    view.Ascending (records.map Record.key) → view.scan records target how = none

theorem unmatched_of_locate {sizes : Option EntrySizes} {order : KeyOrder τ} {target : τ}
    {how : Match} {n : Node} (located : n.locate sizes order target how = .ok none) :
    Unmatched sizes order target how n := by
  refine ⟨located, fun view records has ascending => ?_⟩
  rw [Node.locate_of_keys has ascending target how] at located
  rw [← view.place_eq_scan ascending, Except.ok.inj located]
  rfl

/-- How a node is searched: an index node for the floor, a leaf as its place in the tree asks. -/
def nodeMatch (how : Match) (rightmost : Bool) (n : Node) : Match :=
  if n.isLeaf then leafMatch how rightmost else .floor

/-- The way from a node of a search that ends in a report that something is not found, with what is
asked of the source and entered below the node. Each pointer on it is that of the entry settled on.
It was read as the node entered next, unless it is the last one and the source has lost it. -/
inductive DeadEnd (lost : Reference → StoreError → Prop) (trunk : Trunk) (order : KeyOrder τ)
    (target : τ) (how : Match) : Bool → Loaded → List Ask → List Loaded → StoreError → Prop where
  | unmatched {rightmost : Bool} {here : Loaded}
      (none_there : Unmatched trunk.sizes order target (nodeMatch how rightmost here.node)
        here.node) :
      DeadEnd lost trunk order target how rightmost here [] []
        (.keyNotFound s!"{order.describe target} in tree {trunk.root.text}")
  | dangling {rightmost : Bool} {here : Loaded} {index : Nat} {oid : ObjectId} {e : StoreError}
      (located : here.node.locate trunk.sizes order target .floor = .ok (some index))
      (pointer : here.node.child trunk.sizes index = .ok oid)
      (lost_child : lost (trunk.root.sibling oid) e) :
      DeadEnd lost trunk order target how rightmost here [⟨trunk.root.sibling oid, .error e⟩] [] e
  | child {rightmost : Bool} {here child : Loaded} {index : Nat} {oid : ObjectId}
      {asks : List Ask} {entered : List Loaded} {e : StoreError}
      (located : here.node.locate trunk.sizes order target .floor = .ok (some index))
      (pointer : here.node.child trunk.sizes index = .ok oid)
      (below : DeadEnd lost trunk order target how
        (rightmost && index + 1 == here.node.keyCount) child asks entered e) :
      DeadEnd lost trunk order target how rightmost here
        (⟨trunk.root.sibling oid, .ok child⟩ :: asks) (child :: entered) e

/-- Where a walk ends that reports something as not found: at a record of a leaf it has entered,
which its visitor rejects, or at a pointer in a node it has entered, the last thing asked of the
source, which has lost it. -/
inductive BrokenOff (lost : Reference → StoreError → Prop) (visit : Bytes → Bytes → Session ρ Unit)
    (root : Reference) (asks : List Ask) (nodes : List Loaded) (e : StoreError) : Prop where
  | rejected {sizes : Option EntrySizes} {leaf : Loaded} {index : Nat} {key value : Bytes}
      {own final : ρ} (listed : Listed nodes sizes leaf index)
      (record : Bears sizes leaf index (key, value))
      (rejection : (visit key value).perform own = (.error e, final))
  | dangling {top here : Loaded} {index : Nat} {oid : ObjectId} (first : top ∈ nodes.head?)
      (known : here ∈ nodes) (pointer : here.node.child top.node.entrySizes index = .ok oid)
      (asked : [⟨root.sibling oid, .error e⟩] <:+ asks) (lost_child : lost (root.sibling oid) e)

/-- What a source reports as not found, asked for it beside `root`, is lost. -/
def Misses (lost : Reference → StoreError → Prop) (root : Reference) (asks : List Ask) : Prop :=
  ∀ oid e, ⟨root.sibling oid, .error e⟩ ∈ asks → e.isNotFound = true → lost (root.sibling oid) e

section

variable {τ ρ : Type} {limit : UInt16} {trunk : Trunk} {order : KeyOrder τ} {root : Reference}
  {target : τ} {how : Match} {lost : Reference → StoreError → Prop} {asks : List Ask}
  {visit : Bytes → Bytes → Session ρ Unit}

theorem Rooted.lost_root {e : StoreError} (start : Rooted limit root asks (.error e))
    (not_found : e.isNotFound = true) (misses : Misses lost root asks) : lost root e := by
  cases start with
  | unread e =>
    have known := misses root.oid e
    rw [root.sibling_self] at known
    exact known List.mem_cons_self not_found
  | notRoot not_root => cases not_found
  | tooDeep is_root deep => cases not_found

/-- A step that reports something as not found has asked for the child in vain. -/
theorem Stepped.lost_child {path : List BlockAddress} {parent : Loaded} {index : Nat}
    {e : StoreError} (step : Stepped limit trunk path parent index asks (.error e))
    (not_found : e.isNotFound = true) : ∃ oid, parent.node.child trunk.sizes index = .ok oid ∧
      asks = [⟨trunk.root.sibling oid, .error e⟩] := by
  cases step with
  | undecoded pointer => exact absurd not_found (DecodeError.not_absent _ _)
  | unread pointer e => exact ⟨_, pointer, rfl⟩
  | cycle pointer again => cases not_found
  | misplaced pointer new wrong fault => cases not_found

theorem Trail.deadEnd {rightmost : Bool} {path : List BlockAddress} {here : Loaded}
    {entered : List Loaded} {result : Except StoreError Found} {e : StoreError}
    (trail : Trail limit trunk order target how rightmost path here asks entered result)
    (failed : result = .error e) (not_found : e.isNotFound = true)
    (misses : Misses lost trunk.root asks) :
    DeadEnd lost trunk order target how rightmost here asks entered e := by
  induction trail with
  | leaf is_leaf =>
    obtain ⟨located, rfl⟩ | ⟨_, -, d, rfl, -⟩ := foundIn_eq_error failed
    · refine .unmatched ?_
      rw [nodeMatch, if_pos is_leaf]
      exact unmatched_of_locate located
    · exact absurd not_found (d.not_absent _)
  | lost inner unlocated =>
    cases failed
    obtain ⟨located, rfl⟩ | ⟨d, -, rfl⟩ := locateIn_eq_error unlocated
    · refine .unmatched ?_
      rw [nodeMatch, if_neg (by simp [inner])]
      exact unmatched_of_locate located
    · exact absurd not_found (d.not_absent _)
  | stopped inner located step =>
    cases failed
    obtain ⟨oid, pointer, rfl⟩ := step.lost_child not_found
    exact .dangling (locateIn_eq_ok located) pointer (misses oid _ List.mem_cons_self not_found)
  | child inner located step below ih =>
    cases step with
    | entered pointer new level_eq not_root =>
      exact .child (locateIn_eq_ok located) pointer (ih failed fun oid e asked =>
        misses oid e (List.mem_append_right _ asked))

/-- A search that reports something as not found has lost its root or comes to a dead end below. -/
theorem Searched.deadEnd {entered : List Loaded} {e : StoreError}
    (searched : Searched limit order root target how asks entered (.error e))
    (not_found : e.isNotFound = true) (misses : Misses lost root asks) :
    (entered = [] ∧ lost root e) ∨ ∃ top more below, asks = ⟨root, .ok top⟩ :: more ∧
      entered = top :: below ∧
      DeadEnd lost (Navigator.trunkOf root top) order target how true top more below e := by
  cases searched with
  | refused start => exact .inl ⟨rfl, start.lost_root not_found misses⟩
  | below start trail =>
    cases start with
    | entered is_root shallow =>
      exact .inr ⟨_, _, _, rfl, rfl, trail.deadEnd rfl not_found fun oid e asked =>
        misses oid e (List.mem_append_right _ asked)⟩

theorem Walked.brokenOff {own final : ρ} {nodes : List Loaded} {records : List (Bytes × Bytes)}
    {e : StoreError} (walked : Walked limit visit root own asks nodes records (.error e) final)
    (not_found : e.isNotFound = true) (misses : Misses lost root asks) :
    (nodes = [] ∧ lost root e) ∨ BrokenOff lost visit root asks nodes e := by
  obtain above | ⟨_, leaf, index, listed, stopped⟩ := walked.halts
  · cases above with
    | root start => exact .inl ⟨rfl, start.lost_root not_found misses⟩
    | pointer known inner on_path asked step =>
      obtain ⟨oid, pointer, rfl⟩ := step.lost_child not_found
      have known_ask := asked.subset List.mem_cons_self
      exact .inr (.dangling rfl known pointer asked (misses oid e known_ask not_found))
    | shared known inner asked step again => cases not_found
  · cases stopped with
    | unreadable torn => exact absurd not_found (DecodeError.not_absent _ _)
    | refused record rejected => exact .inr (.rejected listed record rejected)

end

end Tree

end ObjectStore
