import ObjectStore.ObjectMap.Record
import ObjectStore.Proofs.Bisection

/-
Keys seen as what they decode to, and binary search among keys in order. Of equal keys the
search settles on the last.
-/
namespace ObjectStore.Tree

open Std

/-- What the stored keys of an order decode to. The order compares the decoded keys, and so
fails just where a key does not decode. -/
structure KeyView (order : KeyOrder τ) where
  decode : ByteOrder → Bytes → Except DecodeError τ
  cmp : τ → τ → Ordering
  /-- Whether two keys are versions of one thing. -/
  same : τ → τ → Bool
  trans : TransCmp cmp
  lawful : LawfulEqCmp cmp
  compare_eq : ∀ e stored target,
    order.compare e stored target = (decode e stored).map (cmp · target)
  sameIdentity_eq : ∀ e stored target,
    order.sameIdentity e stored target = (decode e stored).map (same · target)

/-- Keys that are one word, none of them a version of another. -/
def wordKeys : KeyView KeyOrder.word where
  decode e stored := e.read64 stored 0
  cmp := compare
  same a b := compare a b == .eq
  trans := inferInstance
  lawful := inferInstance
  compare_eq _ _ _ := rfl
  sameIdentity_eq e stored target := by
    simp only [KeyOrder.word, KeyOrder.ofCompare]
    cases e.read64 stored 0 <;> rfl

theorem version_compare_lex :
    VersionKey.compare = compareLex (compareOn VersionKey.oid) (compareOn VersionKey.xid) := rfl

instance : LawfulEqCmp VersionKey.compare where
  compare_self {a} := by simp [VersionKey.compare]
  eq_of_compare {a b} equal := by
    obtain ⟨oid, xid⟩ := a
    simp only [VersionKey.compare, Ordering.then_eq_eq, Std.compare_eq_iff_eq] at equal
    cases b
    simp_all

/-- Versions by object and transaction, those of one object being versions of one thing. -/
def versionKeys : KeyView VersionKey.order where
  decode := VersionKey.parse
  cmp := VersionKey.compare
  same a b := a.oid == b.oid
  trans := by rw [version_compare_lex]; infer_instance
  lawful := inferInstance
  compare_eq _ _ _ := rfl
  sameIdentity_eq _ _ _ := rfl

/-- On a list in which whatever precedes an element with `p` has `p`, the elements with `p` are
the first ones. -/
theorem filter_eq_take {α : Type} {p : α → Bool} {l : List α}
    (closed : l.Pairwise fun a b => p b = true → p a = true) :
    l.filter p = l.take (l.countP p) := by
  induction l with
  | nil => rfl
  | cons a rest ih =>
    obtain ⟨first, tail⟩ := List.pairwise_cons.mp closed
    by_cases holds : p a = true
    · simp [holds, ih tail]
    · have none_later : ∀ b ∈ rest, p b ≠ true := fun b mem hb => holds (first b mem hb)
      have zero : rest.countP p = 0 := by simpa [List.countP_eq_zero] using none_later
      simp [holds, zero, List.filter_eq_nil_iff.mpr none_later]

theorem lt_countP_iff {α : Type} {p : α → Bool} {l : List α}
    (closed : l.Pairwise fun a b => p b = true → p a = true) (i : Nat) (h : i < l.length) :
    i < l.countP p ↔ p l[i] = true := by
  constructor
  · intro lt
    have mem : l[i] ∈ l.filter p := by
      rw [filter_eq_take closed, List.mem_take_iff_getElem]
      exact ⟨i, by omega, rfl⟩
    exact (List.mem_filter.mp mem).2
  · intro holds
    rcases Nat.lt_or_ge i (l.countP p) with lt | later
    · exact lt
    · have rest : (l.drop (l.countP p)).countP p = 0 := by
        have split := congrArg (List.countP p) (List.take_append_drop (l.countP p) l)
        rw [List.countP_append, ← filter_eq_take closed, List.countP_filter] at split
        simp at split
        simpa [List.countP_eq_zero] using split
      have mem : l[i] ∈ l.drop (l.countP p) :=
        List.mem_drop_iff_getElem.mpr ⟨i - l.countP p, by omega, by congr 1; omega⟩
      exact absurd holds (List.countP_eq_zero.mp rest _ mem)

namespace KeyView

variable {τ : Type} {order : KeyOrder τ} (view : KeyView order)

def atMost (target key : τ) : Bool := (view.cmp key target).isLE

/-- Keys from left to right, none above a later one. -/
def Ascending (keys : List τ) : Prop := keys.Pairwise fun a b => (view.cmp a b).isLE

theorem atMost_of_le {target a b : τ} (le : (view.cmp a b).isLE)
    (holds : view.atMost target b = true) : view.atMost target a = true :=
  have := view.trans
  TransCmp.isLE_trans le holds

theorem ascending_closed {keys : List τ} (ascending : view.Ascending keys) (target : τ) :
    keys.Pairwise fun a b => view.atMost target b = true → view.atMost target a = true :=
  ascending.imp view.atMost_of_le

def accepts (target : τ) (how : Match) (count floor : Nat) (key : τ) : Bool :=
  match how with
  | .floor => true
  | .closestLower => floor + 1 < count || view.cmp key target == .eq
  | .exact => view.cmp key target == .eq
  | .versioned => view.same key target

/-- The place of the key that a search among ascending keys settles on. -/
def place (keys : List τ) (target : τ) (how : Match) : Option Nat :=
  match keys.countP (view.atMost target) with
  | 0 => none
  | floor + 1 =>
    if keys[floor]?.any (view.accepts target how keys.length floor) then some floor else none

theorem place_lt {keys : List τ} {target : τ} {how : Match} {index : Nat}
    (found : view.place keys target how = some index) : index < keys.length := by
  have le := List.countP_le_length (p := view.atMost target) (l := keys)
  simp only [place] at found
  split at found
  · cases found
  · split at found
    · cases found
      omega
    · cases found

theorem place_floor {keys : List τ} {target : τ} {floor : Nat}
    (count : keys.countP (view.atMost target) = floor + 1) :
    view.place keys target .floor = some floor := by
  have h : floor < keys.length := by
    have := List.countP_le_length (p := view.atMost target) (l := keys)
    omega
  simp [place, count, accepts, h]

end KeyView

def Node.HasKeys (n : Node) (sizes : Option EntrySizes) {order : KeyOrder τ}
    (view : KeyView order) (keys : List τ) : Prop :=
  n.keyCount = keys.length ∧ ∀ i (h : i < keys.length), ∃ stored,
    n.key sizes i = .ok stored ∧ view.decode n.order stored = .ok keys[i]

namespace Node

variable {τ : Type} {order : KeyOrder τ} {view : KeyView order} {n : Node}
  {sizes : Option EntrySizes} {keys : List τ}

theorem compareAt_of_keys (has : n.HasKeys sizes view keys) (target : τ) {i : Nat}
    (h : i < keys.length) : n.compareAt sizes order target i = .ok (view.cmp keys[i] target) := by
  obtain ⟨stored, read, decoded⟩ := has.2 i h
  simp only [compareAt, read]
  change order.compare n.order stored target = _
  rw [view.compare_eq, decoded]
  rfl

theorem accepts_of_keys (has : n.HasKeys sizes view keys) (target : τ) (how : Match)
    {floor : Nat} (h : floor < keys.length) :
    n.accepts sizes order target how floor
      = .ok (view.accepts target how keys.length floor keys[floor]) := by
  have compared := compareAt_of_keys has target h
  cases how with
  | floor => rfl
  | closestLower =>
    simp only [accepts, has.1, compared, KeyView.accepts]
    by_cases inner : floor + 1 < keys.length
    · rw [if_pos inner, decide_eq_true inner, Bool.true_or]
      rfl
    · rw [if_neg inner, decide_eq_false inner, Bool.false_or]
      rfl
  | exact =>
    simp only [accepts, compared]
    rfl
  | versioned =>
    obtain ⟨stored, read, decoded⟩ := has.2 floor h
    simp only [accepts, read]
    change order.sameIdentity n.order stored target = _
    rw [view.sameIdentity_eq, decoded]
    rfl

/-- What the search finds in a node whose keys ascend. -/
theorem locate_of_keys (has : n.HasKeys sizes view keys) (ascending : view.Ascending keys)
    (target : τ) (how : Match) :
    n.locate sizes order target how = .ok (view.place keys target how) := by
  have closed := view.ascending_closed ascending target
  let above : Nat → Except DecodeError Bool :=
    fun i => return (← n.compareAt sizes order target i) == .gt
  have probe : ∀ i (h : i < keys.length), above i = .ok (!view.atMost target keys[i]) := by
    intro i h
    simp only [above, compareAt_of_keys has target h]
    change Except.ok _ = _
    cases outcome : view.cmp keys[i] target <;> simp [KeyView.atMost, outcome]
  have stop : bisect above 0 n.keyCount = .ok (keys.countP (view.atMost target)) := by
    apply bisect_threshold (Nat.zero_le _) (by rw [has.1]; exact List.countP_le_length)
    · intro i _ lt
      have h : i < keys.length := Nat.lt_of_lt_of_le lt List.countP_le_length
      rw [probe i h, (lt_countP_iff closed i h).mp lt]
      rfl
    · intro i atLeast lt
      have h : i < keys.length := has.1 ▸ lt
      cases side : view.atMost target keys[i] with
      | true => exact absurd ((lt_countP_iff closed i h).mpr side) (by omega)
      | false => rw [probe i h, side]; rfl
  rw [locate, stop]
  change (match keys.countP (view.atMost target) with
    | 0 => _
    | floor + 1 => _) = _
  simp only [KeyView.place]
  cases count : keys.countP (view.atMost target) with
  | zero => rfl
  | succ floor =>
    have h : floor < keys.length := by
      have := List.countP_le_length (p := view.atMost target) (l := keys)
      omega
    simp only [accepts_of_keys has target how h, List.getElem?_eq_getElem h, Option.any_some]
    rfl

end Node

end ObjectStore.Tree
