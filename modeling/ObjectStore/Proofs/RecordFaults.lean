import ObjectStore.Proofs.SearchTrails
import ObjectStore.Proofs.WalkRounds

/-
What becomes of a search or a walk that comes upon a damaged record. Either fails above the
leaves, where no record is read, or at a record of a leaf that it has entered.
-/
namespace ObjectStore.Tree

open Session

/-- The key or the value of an entry lies outside its node. -/
def Node.Torn (n : Node) (sizes : Option EntrySizes) (index : Nat) (d : DecodeError) : Prop :=
  n.key sizes index = .error d ∨ n.value sizes index = .error d

/-- The key or the value of an entry lies in its node, and there is less of it than a record
takes. -/
def Node.Short (n : Node) (sizes : Option EntrySizes) (keySize valueSize index : Nat)
    (d : DecodeError) : Prop :=
  ((∃ key, n.key sizes index = .ok key ∧ key.size < keySize) ∨
      ∃ value, n.value sizes index = .ok value ∧ value.size < valueSize) ∧
    ∃ needed offset actual, d = .insufficientData needed offset actual

/-- A record of a leaf among these nodes, of which the first is the root and tells the sizes. -/
structure Listed (nodes : List Loaded) (sizes : Option EntrySizes) (leaf : Loaded) (index : Nat) :
    Prop where
  sizes_eq : ∃ top ∈ nodes.head?, top.node.entrySizes = sizes
  known : leaf ∈ nodes
  is_leaf : leaf.node.isLeaf = true
  inside : index < leaf.node.keyCount

section Search

variable {τ : Type} {limit : UInt16} {trunk : Trunk} {order : KeyOrder τ} {root : Reference}
  {target : τ} {how : Match}

theorem Node.compareAt_eq_error {n : Node} {sizes : Option EntrySizes} {index : Nat}
    {d : DecodeError} (failed : n.compareAt sizes order target index = .error d) :
    n.key sizes index = .error d ∨
      ∃ key, n.key sizes index = .ok key ∧ order.compare n.order key target = .error d :=
  bind_eq_error.mp failed

theorem Node.accepts_eq_error {n : Node} {sizes : Option EntrySizes} {index : Nat}
    {d : DecodeError} (failed : n.accepts sizes order target how index = .error d) :
    n.key sizes index = .error d ∨
      ∃ key, n.key sizes index = .ok key ∧ (order.compare n.order key target = .error d ∨
        order.sameIdentity n.order key target = .error d) := by
  have compared : ∀ {f : Ordering → Except DecodeError Bool}, (∀ o, ∃ b, f o = .ok b) →
      (n.compareAt sizes order target index >>= f) = .error d →
      n.key sizes index = .error d ∨
        ∃ key, n.key sizes index = .ok key ∧ (order.compare n.order key target = .error d ∨
          order.sameIdentity n.order key target = .error d) := by
    intro f total failed
    obtain failed | ⟨o, -, failed⟩ := bind_eq_error.mp failed
    · obtain no_key | ⟨key, key_eq, failed⟩ := Node.compareAt_eq_error failed
      · exact .inl no_key
      · exact .inr ⟨key, key_eq, .inl failed⟩
    · obtain ⟨b, ok⟩ := total o
      rw [ok] at failed
      cases failed
  cases how with
  | floor => cases failed
  | closestLower =>
    unfold accepts at failed
    dsimp only at failed
    split at failed
    · cases failed
    · exact compared (fun o => ⟨_, rfl⟩) failed
  | exact => exact compared (fun o => ⟨_, rfl⟩) failed
  | versioned =>
    obtain no_key | ⟨key, key_eq, failed⟩ := bind_eq_error.mp failed
    · exact .inl no_key
    · exact .inr ⟨key, key_eq, .inr failed⟩

/-- A node is searched in vain where a key of it that is asked for cannot be compared. -/
theorem Node.locate_eq_error {n : Node} {sizes : Option EntrySizes} {d : DecodeError}
    (failed : n.locate sizes order target how = .error d) :
    ∃ index < n.keyCount, n.key sizes index = .error d ∨
      ∃ key, n.key sizes index = .ok key ∧ (order.compare n.order key target = .error d ∨
        order.sameIdentity n.order key target = .error d) := by
  obtain failed | ⟨stop, searched, rest⟩ := bind_eq_error.mp failed
  · obtain ⟨index, -, inside, asked⟩ := bisect_eq_error failed
    refine ⟨index, inside, ?_⟩
    obtain asked | ⟨o, -, asked⟩ := bind_eq_error.mp asked
    · obtain no_key | ⟨key, key_eq, failed⟩ := Node.compareAt_eq_error asked
      · exact .inl no_key
      · exact .inr ⟨key, key_eq, .inl failed⟩
    · cases asked
  · obtain ⟨-, stop_le, -, -⟩ := bisect_asked (Nat.zero_le _) searched
    cases stop with
    | zero => cases rest
    | succ floor =>
      obtain rejected | ⟨b, -, rest⟩ := bind_eq_error.mp rest
      · exact ⟨floor, stop_le, Node.accepts_eq_error rejected⟩
      · cases rest

theorem recordAt_eq_error {here : Loaded} {index : Nat} {e : StoreError}
    (failed : (Navigator.recordAt trunk here index : Except StoreError _) = .error e) :
    ∃ d, here.node.Torn trunk.sizes index d ∧ e = d.atBlock here.address := by
  obtain no_key | ⟨key, -, failed⟩ := bind_eq_error.mp failed
  · obtain ⟨d, key_eq, named⟩ := decodedAt_eq_error.mp no_key
    exact ⟨d, .inl key_eq, named⟩
  · obtain no_value | ⟨value, -, failed⟩ := bind_eq_error.mp failed
    · obtain ⟨d, value_eq, named⟩ := decodedAt_eq_error.mp no_value
      exact ⟨d, .inr value_eq, named⟩
    · cases failed

/-- A search ends in a leaf that it enters, or fails without having entered one. -/
theorem Trail.ends {rightmost : Bool} {path : List BlockAddress} {here : Loaded}
    {asks : List Ask} {entered : List Loaded} {result : Except StoreError Found}
    (trail : Trail limit trunk order target how rightmost path here asks entered result) :
    (∃ leaf ∈ here :: entered, leaf.node.isLeaf = true ∧ ∃ rightmost,
        result = foundIn trunk order target (leafMatch how rightmost) leaf) ∨
      (∀ n ∈ here :: entered, n.node.isLeaf = false) ∧ ∃ e, result = .error e := by
  induction trail with
  | @leaf rightmost _ here is_leaf =>
    exact .inl ⟨here, List.mem_cons_self, is_leaf, rightmost, rfl⟩
  | lost inner located => exact .inr ⟨by simpa using inner, _, rfl⟩
  | stopped inner located step => exact .inr ⟨by simpa using inner, _, rfl⟩
  | child inner located step below ih =>
    obtain ⟨leaf, known, found⟩ | ⟨no_leaf, failed⟩ := ih
    · exact .inl ⟨leaf, List.mem_cons_of_mem _ known, found⟩
    · exact .inr ⟨List.forall_mem_cons.mpr ⟨inner, no_leaf⟩, failed⟩

theorem Searched.ends {asks : List Ask} {entered : List Loaded}
    {result : Except StoreError Found}
    (searched : Searched limit order root target how asks entered result) :
    (∃ top ∈ entered.head?, ∃ leaf ∈ entered, leaf.node.isLeaf = true ∧ ∃ rightmost, result =
        foundIn (Navigator.trunkOf root top) order target (leafMatch how rightmost) leaf) ∨
      (∀ n ∈ entered, n.node.isLeaf = false) ∧ ∃ e, result = .error e := by
  cases searched with
  | refused start => exact .inr ⟨fun n none => (List.not_mem_nil none).elim, _, rfl⟩
  | below start trail =>
    obtain in_leaf | above := trail.ends
    · exact .inl ⟨_, rfl, in_leaf⟩
    · exact .inr above

theorem locateIn_eq_ok {leaf : Loaded} {index : Nat}
    (located : (Navigator.locateIn trunk order target how leaf : Except StoreError _) = .ok index) :
    leaf.node.locate trunk.sizes order target how = .ok (some index) := by
  obtain ⟨place, searched, located⟩ := bind_eq_ok.mp located
  cases place with
  | none => cases located
  | some index =>
    cases located
    exact decodedAt_eq_ok.mp searched

theorem locateIn_eq_error {here : Loaded} {e : StoreError}
    (failed : (Navigator.locateIn trunk order target how here : Except StoreError _) = .error e) :
    (here.node.locate trunk.sizes order target how = .ok none ∧
        e = .keyNotFound s!"{order.describe target} in tree {trunk.root.text}") ∨
      ∃ d, here.node.locate trunk.sizes order target how = .error d ∧
        e = d.atBlock here.address := by
  obtain failed | ⟨place, searched, failed⟩ := bind_eq_error.mp failed
  · obtain ⟨d, failed, named⟩ := decodedAt_eq_error.mp failed
    exact .inr ⟨d, failed, named⟩
  · cases place with
    | none =>
      cases failed
      exact .inl ⟨decodedAt_eq_ok.mp searched, rfl⟩
    | some index => cases failed

/-- What a search finds in a leaf is a record of the leaf, and names it. -/
theorem foundIn_eq_ok {leaf : Loaded} {found : Found}
    (ok : foundIn trunk order target how leaf = .ok found) :
    found.address = leaf.address ∧
      leaf.node.locate trunk.sizes order target how = .ok (some found.index) ∧
      Bears trunk.sizes leaf found.index (found.key, found.value) := by
  obtain ⟨index, located, ok⟩ := bind_eq_ok.mp ok
  obtain ⟨record, read, ok⟩ := bind_eq_ok.mp ok
  cases ok
  exact ⟨rfl, locateIn_eq_ok located, bears_of_recordAt read⟩

/-- A leaf that a search has entered fails it where it lists no such key or at a record. -/
theorem foundIn_eq_error {leaf : Loaded} {e : StoreError}
    (failed : foundIn trunk order target how leaf = .error e) :
    (leaf.node.locate trunk.sizes order target how = .ok none ∧
        e = .keyNotFound s!"{order.describe target} in tree {trunk.root.text}") ∨
      ∃ index < leaf.node.keyCount, ∃ d, e = d.atBlock leaf.address ∧
        (leaf.node.Torn trunk.sizes index d ∨ ∃ key, leaf.node.key trunk.sizes index = .ok key ∧
          (order.compare leaf.node.order key target = .error d ∨
            order.sameIdentity leaf.node.order key target = .error d)) := by
  obtain failed | ⟨index, located, failed⟩ := bind_eq_error.mp failed
  · obtain unmatched | ⟨d, failed, named⟩ := locateIn_eq_error failed
    · exact .inl unmatched
    · obtain ⟨index, inside, no_key | uncompared⟩ := Node.locate_eq_error failed
      · exact .inr ⟨index, inside, d, named, .inl (.inl no_key)⟩
      · exact .inr ⟨index, inside, d, named, .inr uncompared⟩
  · have inside := (Node.locate_eq_some (locateIn_eq_ok located)).1
    obtain failed | ⟨record, -, failed⟩ := bind_eq_error.mp failed
    · obtain ⟨d, torn, named⟩ := recordAt_eq_error failed
      exact .inr ⟨index, inside, d, named, .inl torn⟩
    · cases failed

end Search

section Walk

variable {ρ : Type} {limit : UInt16} {root : Reference} {top : Loaded} {nodes : List Loaded}
  {visit : Bytes → Bytes → Session ρ Unit}

/-- How a walk fails that has entered these nodes and does not come upon a record: it has no root
to begin with, or an index node leads it to no child or to one that it has been at. -/
inductive StoppedAbove (limit : UInt16) (root : Reference) (asks : List Ask) :
    List Loaded → StoreError → Prop where
  | root {e : StoreError} (start : Rooted limit root asks (.error e)) :
      StoppedAbove limit root asks [] e
  | pointer {top here : Loaded} {below : List Loaded} {path : List BlockAddress} {index : Nat}
      {last : List Ask} {e : StoreError} (known : here ∈ top :: below)
      (inner : here.node.isLeaf = false) (on_path : path ⊆ (top :: below).map Loaded.address)
      (asked : last <:+ asks)
      (step : Stepped limit (Navigator.trunkOf root top) path here index last (.error e)) :
      StoppedAbove limit root asks (top :: below) e
  | shared {top here child : Loaded} {below : List Loaded} {path : List BlockAddress}
      {index : Nat} {last : List Ask} (known : here ∈ top :: below)
      (inner : here.node.isLeaf = false) (asked : last <:+ asks)
      (step : Stepped limit (Navigator.trunkOf root top) path here index last (.ok child))
      (again : child.address ∈ (top :: below).map Loaded.address) :
      StoppedAbove limit root asks (top :: below)
        (.corrupt child.address "B-tree node reachable from two parents")

inductive StoppedAt (visit : Bytes → Bytes → Session ρ Unit) (trunk : Trunk) (leaf : Loaded)
    (index : Nat) : StoreError → Prop where
  | unreadable {d : DecodeError} (torn : leaf.node.Torn trunk.sizes index d) :
      StoppedAt visit trunk leaf index (d.atBlock leaf.address)
  | refused {key value : Bytes} {own final : ρ} {e : StoreError}
      (record : Bears trunk.sizes leaf index (key, value))
      (rejected : (visit key value).perform own = (.error e, final)) :
      StoppedAt visit trunk leaf index e

theorem StoppedAbove.later {asks more : List Ask} {e : StoreError} {below : List Loaded}
    (stopped : StoppedAbove limit root more (top :: below) e) :
    StoppedAbove limit root (asks ++ more) (top :: below) e := by
  cases stopped with
  | pointer known inner on_path asked step =>
    exact .pointer known inner on_path (asked.trans (List.suffix_append _ _)) step
  | shared known inner asked step again =>
    exact .shared known inner (asked.trans (List.suffix_append _ _)) step again

structure Stop.Among (nodes : List Loaded) (stop : Stop) : Prop where
  known : stop.here ∈ nodes
  inside : stop.index < stop.here.node.keyCount
  on_path : stop.path ⊆ nodes.map Loaded.address

theorem among_stopsAt {path : List BlockAddress} {here : Loaded} (known : here ∈ nodes)
    (on_path : path ⊆ nodes.map Loaded.address) : ∀ stop ∈ stopsAt path here, stop.Among nodes := by
  intro stop at_here
  obtain ⟨index, inside, rfl⟩ := List.mem_map.mp at_here
  exact ⟨known, List.mem_range.mp inside, on_path⟩

/-- By induction on the round, whose stops stay among the nodes that the walk enters. -/
theorem Round.halts {below new : List Loaded} {entered : List BlockAddress} {own final : ρ}
    {stops : List Stop} {asks : List Ask} {records : List (Bytes × Bytes)} {e : StoreError}
    {result : Except StoreError Unit}
    (round : Round limit (Navigator.trunkOf root top) visit entered own stops asks new records
      result final) (failed : result = .error e)
    (stops_among : ∀ stop ∈ stops, stop.Among (top :: below))
    (been : entered ⊆ (top :: below).map Loaded.address)
    (new_among : ∀ n ∈ new, n ∈ top :: below) :
    StoppedAbove limit root asks (top :: below) e ∨
      ∃ leaf ∈ top :: below, leaf.node.isLeaf = true ∧ ∃ index < leaf.node.keyCount,
        StoppedAt visit (Navigator.trunkOf root top) leaf index e := by
  induction round with
  | done => cases failed
  | record is_leaf read accepted rest ih =>
    exact ih failed (List.forall_mem_cons.mp stops_among).2 been new_among
  | unreadable is_leaf read =>
    cases failed
    have stop := (List.forall_mem_cons.mp stops_among).1
    obtain ⟨d, torn, rfl⟩ := recordAt_eq_error read
    exact .inr ⟨_, stop.known, is_leaf, _, stop.inside, .unreadable torn⟩
  | refused is_leaf read rejected =>
    cases failed
    have stop := (List.forall_mem_cons.mp stops_among).1
    exact .inr ⟨_, stop.known, is_leaf, _, stop.inside,
      .refused (bears_of_recordAt read) rejected⟩
  | stopped inner step =>
    cases failed
    have stop := (List.forall_mem_cons.mp stops_among).1
    exact .inl (.pointer stop.known inner stop.on_path (List.suffix_refl _) step)
  | shared inner step again =>
    cases failed
    have stop := (List.forall_mem_cons.mp stops_among).1
    exact .inl (.shared stop.known inner (List.suffix_refl _) step (been again))
  | child inner step fresh rest ih =>
    obtain ⟨stop, later⟩ := List.forall_mem_cons.mp stops_among
    obtain ⟨child_among, rest_among⟩ := List.forall_mem_cons.mp new_among
    have child_been := List.mem_map_of_mem (f := Loaded.address) child_among
    have at_child := among_stopsAt child_among (List.cons_subset.mpr ⟨child_been, stop.on_path⟩)
    obtain above | at_record := ih failed (List.forall_mem_append.mpr ⟨at_child, later⟩)
      (List.cons_subset.mpr ⟨child_been, been⟩) rest_among
    · exact .inl above.later
    · exact .inr at_record

/-- A walk that fails has stopped above the leaves or at a record of one. -/
theorem Walked.halts {own final : ρ} {asks : List Ask} {records : List (Bytes × Bytes)}
    {e : StoreError} (walked : Walked limit visit root own asks nodes records (.error e) final) :
    StoppedAbove limit root asks nodes e ∨ ∃ trunk leaf index,
      Listed nodes trunk.sizes leaf index ∧ StoppedAt visit trunk leaf index e := by
  generalize ended : (Except.error e : Except StoreError Nat) = outcome at walked
  cases walked with
  | refused start =>
    cases ended
    exact .inl (.root start)
  | @round _ _ top below _ result _ start round =>
    have failed : result = .error e := by
      cases result with
      | error _ => cases ended; rfl
      | ok _ => cases ended
    have top_known : top ∈ top :: below := List.mem_cons_self
    have on_path : [top.address] ⊆ (top :: below).map Loaded.address := by simp
    obtain above | ⟨leaf, known, is_leaf, index, inside, stopped⟩ := round.halts failed
      (among_stopsAt top_known on_path) on_path fun n later => List.mem_cons_of_mem _ later
    · exact .inl above.later
    · exact .inr ⟨_, leaf, index, ⟨⟨top, rfl, rfl⟩, known, is_leaf, inside⟩, stopped⟩

theorem Round.not_root {trunk : Trunk} {new : List Loaded} {entered : List BlockAddress}
    {own final : ρ} {stops : List Stop} {asks : List Ask} {records : List (Bytes × Bytes)}
    {result : Except StoreError Unit}
    (round : Round limit trunk visit entered own stops asks new records result final) :
    ∀ n ∈ new, n.node.isRoot = false := by
  induction round with
  | done => simp
  | record is_leaf read accepted rest ih => exact ih
  | unreadable is_leaf read => simp
  | refused is_leaf read rejected => simp
  | stopped inner step => simp
  | shared inner step again => simp
  | child inner step fresh rest ih =>
    cases step with
    | entered pointer apart level_eq not_root => exact List.forall_mem_cons.mpr ⟨not_root, ih⟩

/-- Of the nodes that a walk enters, the first one alone is a root and lies where it does. -/
theorem Walked.root_only {own final : ρ} {asks : List Ask} {records : List (Bytes × Bytes)}
    {result : Except StoreError Nat}
    (walked : Walked limit visit root own asks nodes records result final)
    (first : top ∈ nodes.head?) : ∀ n ∈ nodes, n.address = top.address ↔ n.node.isRoot = true := by
  have distinct := walked.distinct
  cases walked with
  | refused start => cases first
  | round start round =>
    cases first
    cases start with
    | entered is_root shallow =>
      refine List.forall_mem_cons.mpr ⟨iff_of_true rfl is_root, fun n later => ?_⟩
      refine iff_of_false (fun same => ?_) (by simp [round.not_root n later])
      exact (List.nodup_cons.mp distinct).1 (same ▸ List.mem_map_of_mem later)

end Walk

end ObjectStore.Tree
