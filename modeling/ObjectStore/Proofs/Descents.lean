import ObjectStore.Proofs.Bisection
import ObjectStore.Proofs.Outcomes
import ObjectStore.Proofs.Search

/-
What a search has gone through when it finds a record, in trees of which nothing is known but
that every node was handed out by the source.
-/
namespace ObjectStore

theorem Reference.sibling_self (r : Reference) : r.sibling r.oid = r := by
  cases r <;> rfl

namespace Tree

open Session

/-- The nodes that pointers lead to below `top`, each handed out for the reference that its
parent holds and lying one level below it. -/
inductive Descent (handed : Reference → Loaded → Prop) (root : Reference) (top : Loaded) :
    Loaded → Prop where
  | top : handed root top → Descent handed root top top
  | child {parent child : Loaded} {index : Nat} {oid : ObjectId} :
      Descent handed root top parent → index < parent.node.keyCount →
      parent.node.child top.node.entrySizes index = .ok oid →
      handed (root.sibling oid) child →
      child.node.level.toNat + 1 = parent.node.level.toNat → child.node.isRoot = false →
      Descent handed root top child

/-- A record lies in a leaf below `top`, where a search of the leaf alone stops. -/
structure Landing (handed : Reference → Loaded → Prop) (order : KeyOrder τ) (root : Reference)
    (target : τ) (how : Match) (top : Loaded) (found : Found) (leaf : Loaded) : Prop where
  descent : Descent handed root top leaf
  is_leaf : leaf.node.isLeaf = true
  address_eq : found.address = leaf.address
  located : ∃ rightmost, leaf.node.locate top.node.entrySizes order target
    (leafMatch how rightmost) = .ok (some found.index)
  key_eq : leaf.node.key top.node.entrySizes found.index = .ok found.key
  value_eq : leaf.node.value top.node.entrySizes found.index = .ok found.value

theorem Descent.mono {handed handed' : Reference → Loaded → Prop} {root : Reference}
    {top here : Loaded} (descent : Descent handed root top here)
    (implies : ∀ reference loaded, handed reference loaded → handed' reference loaded) :
    Descent handed' root top here := by
  induction descent with
  | top known => exact .top (implies _ _ known)
  | child _ inside pointer known level_eq not_root ih =>
    exact ih.child inside pointer (implies _ _ known) level_eq not_root

theorem Landing.mono {τ : Type} {handed handed' : Reference → Loaded → Prop} {order : KeyOrder τ}
    {root : Reference} {target : τ} {how : Match} {top leaf : Loaded} {found : Found}
    (landing : Landing handed order root target how top found leaf)
    (implies : ∀ reference loaded, handed reference loaded → handed' reference loaded) :
    Landing handed' order root target how top found leaf :=
  { landing with descent := landing.descent.mono implies }

/-- A search stops at an entry of the node, whose key it has not found to be above the target. -/
theorem Node.locate_eq_some {n : Node} {sizes : Option EntrySizes} {order : KeyOrder τ}
    {target : τ} {how : Match} {index : Nat}
    (located : n.locate sizes order target how = .ok (some index)) :
    index < n.keyCount ∧ (∃ o, n.compareAt sizes order target index = .ok o ∧ o ≠ .gt) ∧
      n.accepts sizes order target how index = .ok true := by
  obtain ⟨stop, searched, rest⟩ := bind_eq_ok.mp located
  obtain ⟨-, stop_le, below, -⟩ := bisect_asked (Nat.zero_le _) searched
  cases stop with
  | zero => cases rest
  | succ floor =>
    obtain ⟨accepted, tested, same⟩ := bind_eq_ok.mp rest
    cases accepted with
    | false => cases same
    | true =>
      cases same
      obtain ⟨o, compared, same⟩ := bind_eq_ok.mp (below (Nat.succ_pos _))
      refine ⟨stop_le, ⟨o, compared, fun above => ?_⟩, tested⟩
      rw [above] at same
      cases same

theorem childFault?_eq_none {reference : Reference} {parent child : Loaded}
    (sound : childFault? reference parent child = none) :
    child.node.level.toNat = parent.node.level.toNat - 1 ∧ child.node.isRoot = false := by
  simp only [childFault?] at sound
  split at sound
  · assumption
  · cases sound

namespace Navigator

variable {σ τ : Type} {I : σ → Prop} {nav : Navigator (Session σ)}
  {handed : Reference → Loaded → Prop} {order : KeyOrder τ} {root : Reference} {top : Loaded}

theorem ensures_locateIn (trunk : Trunk) (order : KeyOrder τ) (target : τ) (how : Match)
    (here : Loaded) : Ensures I (locateIn trunk order target how here) fun index =>
      here.node.locate trunk.sizes order target how = .ok (some index) := by
  apply (ensures_decodedAt _ _).bind
  intro place located
  cases place with
  | none => exact ensures_throw _
  | some index => exact ensures_pure located

theorem ensures_recordAt (trunk : Trunk) (here : Loaded) (index : Nat) :
    Ensures I (recordAt trunk here index) fun record =>
      here.node.key trunk.sizes index = .ok record.1 ∧
        here.node.value trunk.sizes index = .ok record.2 := by
  apply (ensures_decodedAt _ _).bind
  intro key key_eq
  exact (ensures_decodedAt _ _).bind fun value value_eq => ensures_pure ⟨key_eq, value_eq⟩

theorem ensures_step {given : ObjectId → Loaded → Prop} (trunk : Trunk)
    (loads : ∀ oid, Ensures I (nav.source (trunk.root.sibling oid)) (given oid))
    (path : List BlockAddress) (parent : Loaded) (index : Nat) :
    Ensures I (nav.step trunk path parent index) fun child =>
      ∃ oid, parent.node.child trunk.sizes index = .ok oid ∧ given oid child ∧
        childFault? (trunk.root.sibling oid) parent child = none := by
  have read : Ensures I (nav.readChild trunk.root trunk.sizes parent index) fun pair =>
      ∃ oid, parent.node.child trunk.sizes index = .ok oid ∧
        pair.1 = trunk.root.sibling oid ∧ given oid pair.2 := by
    apply (ensures_decodedAt _ _).bind
    intro oid pointer
    exact (loads oid).bind fun child known => ensures_pure ⟨oid, pointer, rfl, known⟩
  apply read.bind
  rintro ⟨reference, child⟩ ⟨oid, pointer, same, known⟩
  apply ensures_checked
  intro _
  cases sound : childFault? reference parent child with
  | some fault => exact ensures_throw _
  | none =>
    refine ensures_pure ⟨oid, pointer, known, ?_⟩
    rw [← same]
    exact sound

theorem ensures_rootNode {given : ObjectId → Loaded → Prop} (root : Reference)
    (loads : ∀ oid, Ensures I (nav.source (root.sibling oid)) (given oid)) :
    Ensures I (nav.rootNode root) fun top =>
      given root.oid top ∧ top.node.isRoot = true ∧ top.node.level ≤ nav.maxDepth := by
  have load := loads root.oid
  rw [root.sibling_self] at load
  apply load.bind
  intro top known
  refine ensures_checked fun is_root => ensures_checked fun shallow => ?_
  refine ensures_pure ⟨known, ?_, UInt16.not_lt.mp shallow⟩
  simpa using is_root

theorem findBelow_lands
    (loads : ∀ oid, Ensures I (nav.source (root.sibling oid)) (handed (root.sibling oid)))
    (target : τ) (how : Match) :
    ∀ (level : Nat) (path : List BlockAddress) (rightmost : Bool) (here : Loaded),
      Descent handed root top here → here.node.level.toNat = level →
      Ensures I (nav.findBelow (trunkOf root top) order target how level path rightmost here)
        fun found => ∃ leaf, Landing handed order root target how top found leaf := by
  intro level
  induction level with
  | zero =>
    intro path rightmost here reached level_eq
    have is_leaf := Node.leaf_of_level level_eq
    apply (ensures_locateIn _ _ _ _ _).bind
    intro index located
    apply (ensures_recordAt _ _ _).bind
    rintro ⟨key, value⟩ ⟨key_eq, value_eq⟩
    exact ensures_pure ⟨here, reached, is_leaf, rfl, ⟨rightmost, located⟩, key_eq, value_eq⟩
  | succ level ih =>
    intro path rightmost here reached level_eq
    apply (ensures_locateIn _ _ _ _ _).bind
    intro index located
    apply (ensures_step (trunkOf root top) loads _ _ _).bind
    rintro child ⟨oid, pointer, known, sound⟩
    obtain ⟨child_level, not_root⟩ := childFault?_eq_none sound
    have inside := (Node.locate_eq_some located).1
    exact ih _ _ child
      (reached.child inside pointer known (by omega) not_root) (by omega)

/-- Whatever the tree looks like, a record that is found lies in a leaf to which pointers lead
from the root. -/
theorem find_lands (root : Reference)
    (loads : ∀ oid, Ensures I (nav.source (root.sibling oid)) (handed (root.sibling oid)))
    (target : τ) (how : Match) :
    Ensures I (nav.find order root target how) fun found =>
      ∃ top leaf, top.node.isRoot = true ∧ top.node.level ≤ nav.maxDepth ∧
        Landing handed order root target how top found leaf := by
  apply (ensures_rootNode root loads).bind
  rintro top ⟨known, is_root, shallow⟩
  rw [root.sibling_self] at known
  apply (findBelow_lands loads target how _ _ _ top (.top known) rfl).weaken
  rintro found ⟨leaf, landing⟩
  exact ⟨top, leaf, is_root, shallow, landing⟩

/-- A search keeps what its source keeps beside the root. -/
theorem ensures_find (root : Reference)
    (loads : ∀ oid, Ensures I (nav.source (root.sibling oid)) fun _ => True) (target : τ)
    (how : Match) : Ensures I (nav.find order root target how) fun _ => True := by
  have lands := @find_lands σ τ I nav (fun _ _ => True) order root loads target how
  exact lands.weaken fun _ _ => trivial

theorem ensures_enter (here : Loaded) (p : Progress) :
    Ensures I (enter here p) fun _ => True :=
  ensures_checked fun _ => ensures_pure trivial

/-- A walk keeps what its visitor keeps, and what its source keeps beside the root. -/
theorem ensures_walkBelow {visit : Bytes → Bytes → Session σ Unit} (trunk : Trunk)
    (loads : ∀ oid, Ensures I (nav.source (trunk.root.sibling oid)) fun _ => True)
    (visits : ∀ key value, Ensures I (visit key value) fun _ => True) :
    ∀ (level : Nat) (path : List BlockAddress) (here : Loaded) (p : Progress),
      Ensures I (nav.walkBelow trunk visit level path here p) fun _ => True := by
  intro level
  induction level with
  | zero =>
    intro path here p
    refine (ensures_enter here p).bind fun p _ => ensures_foldlM (fun p index _ => ?_) p
    apply (ensures_recordAt _ _ _).bind
    intro record _
    exact (visits _ _).bind fun _ _ => ensures_pure trivial
  | succ level ih =>
    intro path here p
    refine (ensures_enter here p).bind fun p _ => ensures_foldlM (fun p index _ => ?_) p
    have step := ensures_step trunk loads (here.address :: path) here index
    exact step.bind fun child _ => ih _ child p

theorem ensures_walk {visit : Bytes → Bytes → Session σ Unit} (root : Reference)
    (loads : ∀ oid, Ensures I (nav.source (root.sibling oid)) fun _ => True)
    (visits : ∀ key value, Ensures I (visit key value) fun _ => True) :
    Ensures I (nav.walk root visit) fun _ => True := by
  apply (ensures_rootNode root loads).bind
  intro top _
  have below := ensures_walkBelow (trunkOf root top) loads visits
  exact (below _ _ _ _).bind fun _ _ => ensures_pure trivial

theorem ensures_walkWith {ρ : Type} (root : Reference)
    (loads : ∀ oid, Ensures I (nav.source (root.sibling oid)) fun _ => True)
    (visit : Bytes → Bytes → Session ρ Unit) :
    Ensures (fun s : σ × ρ => I s.1) (nav.walkWith root visit) fun _ => True :=
  ensures_walk root (fun oid => ensures_onLeft (loads oid)) fun _ _ => ensures_onRight _

end Navigator

end Tree

end ObjectStore
