import Mathlib.Data.List.Forall2
import ObjectStore.Proofs.CodecLaws
import ObjectStore.Proofs.Descents
import ObjectStore.Proofs.Versions

/-
Where a search of one node ends, told by how its keys compare with the target. Of keys in any
order it is known where the search has stopped; of keys in order also that it has found the last
that matches.
-/
namespace ObjectStore.Tree

/-- A place at which the first `count` keys are seen to turn from not above the target to above
it, or nothing where already the first is above. -/
def Turns (count : Nat) (outcome : Nat → Ordering) : Option Nat → Prop
  | none => count = 0 ∨ outcome 0 = .gt
  | some i => i < count ∧ outcome i ≠ .gt ∧ (i + 1 < count → outcome (i + 1) = .gt)

/-- The last of the first `count` places with `p`, or nothing where none of them has `p`. -/
def IsLast (count : Nat) (p : Nat → Prop) : Option Nat → Prop
  | none => ∀ i < count, ¬p i
  | some i => i < count ∧ p i ∧ ∀ j < count, p j → j ≤ i

/-- No key compares lower than one to the left of it. -/
def Rising (count : Nat) (outcome : Nat → Ordering) : Prop :=
  ∀ i j, i ≤ j → j < count →
    (outcome j ≠ .gt → outcome i ≠ .gt) ∧ (outcome j = .lt → outcome i = .lt)

theorem Turns.isLast {count : Nat} {outcome : Nat → Ordering} {floor : Option Nat}
    (turns : Turns count outcome floor) (rising : Rising count outcome) :
    IsLast count (outcome · ≠ .gt) floor := by
  cases floor with
  | none =>
    intro i lt low
    rcases turns with empty | above
    · omega
    · exact (rising 0 i (Nat.zero_le i) lt).1 low above
  | some i =>
    obtain ⟨lt, low, next⟩ := turns
    refine ⟨lt, low, fun j inside low_j => Nat.not_lt.mp fun beyond => ?_⟩
    exact (rising (i + 1) j beyond inside).1 low_j (next (by omega))

/-- The last key that equals the target can only be the last that is not above it. -/
theorem IsLast.equal {count : Nat} {outcome : Nat → Ordering} {floor : Option Nat}
    (last : IsLast count (outcome · ≠ .gt) floor) (rising : Rising count outcome) :
    IsLast count (outcome · = .eq) (floor.filter (outcome · == .eq)) := by
  have low : ∀ j, outcome j = .eq → outcome j ≠ .gt := by
    intro j equal
    rw [equal]
    decide
  cases floor with
  | none =>
    intro j inside equal
    exact last j inside (low j equal)
  | some i =>
    obtain ⟨lt, not_above, greatest⟩ := last
    rw [Option.filter_some]
    cases found : outcome i with
    | gt => exact absurd found not_above
    | eq => exact ⟨lt, found, fun j inside equal => greatest j inside (low j equal)⟩
    | lt =>
      intro j inside equal
      have below := (rising j i (greatest j inside (low j equal)) lt).2 found
      rw [equal] at below
      cases below

/-- A search fails only where the test does. -/
theorem bisect_answers {above : Nat → Except DecodeError Bool} (lo : Nat) {hi : Nat}
    (answers : ∀ i < hi, ∃ b, above i = .ok b) : ∃ stop, bisect above lo hi = .ok stop := by
  induction lo, hi using bisect.induct with
  | case1 lo hi lt mid ihLow ihHigh =>
    have mid_eq : mid = lo + (hi - lo) / 2 := rfl
    obtain ⟨answer, probe⟩ := answers mid (by omega)
    rw [bisect_step lt probe]
    cases answer with
    | true => exact ihLow fun i inside => answers i (by omega)
    | false => exact ihHigh answers
  | case2 lo hi done => exact ⟨lo, bisect_empty done⟩

namespace Node

variable {τ : Type} {n : Node} {sizes : Option EntrySizes} {order : KeyOrder τ} {target : τ}
  {outcome : Nat → Ordering}

/-- The place that a search starts from, where there is one and it is accepted. -/
def settle (accepts : Nat → Except DecodeError Bool) :
    Option Nat → Except DecodeError (Option Nat)
  | none => .ok none
  | some i => (accepts i).map fun accepted => if accepted then some i else none

theorem settle_eq_filter {accepts : Nat → Except DecodeError Bool} {keep : Nat → Bool}
    {floor : Option Nat} (accepted : ∀ i, floor = some i → accepts i = .ok (keep i)) :
    settle accepts floor = .ok (floor.filter keep) := by
  cases floor with
  | none => rfl
  | some i =>
    rw [settle, accepted i rfl, Option.filter_some]
    rfl

/-- Every way to match starts from the same place. -/
theorem locate_turns
    (compares : ∀ i < n.keyCount, n.compareAt sizes order target i = .ok (outcome i)) :
    ∃ floor, Turns n.keyCount outcome floor ∧ ∀ how,
      n.locate sizes order target how = settle (n.accepts sizes order target how) floor := by
  let above : Nat → Except DecodeError Bool :=
    fun i => return (← n.compareAt sizes order target i) == .gt
  have probe : ∀ i < n.keyCount, above i = .ok (outcome i == .gt) := by
    intro i lt
    simp only [above, compares i lt]
    rfl
  obtain ⟨stop, searched⟩ := bisect_answers 0 fun i lt => ⟨_, probe i lt⟩
  obtain ⟨-, le, left, right⟩ := bisect_asked (Nat.zero_le _) searched
  have above_stop : ∀ inside : stop < n.keyCount, outcome stop = .gt := by
    intro inside
    have seen := (probe stop inside).symm.trans (right inside)
    exact beq_iff_eq.mp (Except.ok.inj seen)
  cases stop with
  | zero =>
    refine ⟨none, ?_, fun how => ?_⟩
    · by_cases empty : n.keyCount = 0
      · exact .inl empty
      · exact .inr (above_stop (by omega))
    · rw [locate, searched]
      rfl
  | succ floor =>
    have seen := (probe floor (by omega)).symm.trans (left (by omega))
    refine ⟨some floor, ⟨by omega, beq_eq_false_iff_ne.mp (Except.ok.inj seen), above_stop⟩, ?_⟩
    intro how
    rw [locate, searched, ok_bind, settle]
    dsimp only
    cases n.accepts sizes order target how floor <;> rfl

/-- Where the ways to match end among keys in order, `floor` being the place they start from. -/
structure Places (n : Node) (sizes : Option EntrySizes) (order : KeyOrder τ) (target : τ)
    (outcome : Nat → Ordering) (floor : Option Nat) : Prop where
  last : IsLast n.keyCount (outcome · ≠ .gt) floor
  equal : ∃ place, n.locate sizes order target .exact = .ok place ∧
    IsLast n.keyCount (outcome · = .eq) place
  /-- The target is above the last key. -/
  beyond : 0 < n.keyCount ∧ outcome (n.keyCount - 1) = .lt →
    n.locate sizes order target .closestLower = .ok none
  within : ¬(0 < n.keyCount ∧ outcome (n.keyCount - 1) = .lt) →
    n.locate sizes order target .closestLower = .ok floor
  unversioned : floor = none → n.locate sizes order target .versioned = .ok none
  versioned : ∀ i, floor = some i → ∃ key, n.key sizes i = .ok key ∧
    n.locate sizes order target .versioned
      = (order.sameIdentity n.order key target).map fun same => if same then some i else none

theorem compareAt_accepts {i : Nat} {o : Ordering}
    (compared : n.compareAt sizes order target i = .ok o) :
    n.accepts sizes order target .exact i = .ok (o == .eq) := by
  rw [accepts, compared]
  rfl

/-- A target above the last key leaves the last key as the floor, and no other. -/
theorem closestLower_accepts
    (compares : ∀ i < n.keyCount, n.compareAt sizes order target i = .ok (outcome i))
    (rising : Rising n.keyCount outcome) {i : Nat} (turns : Turns n.keyCount outcome (some i)) :
    n.accepts sizes order target .closestLower i
      = .ok (!decide (0 < n.keyCount ∧ outcome (n.keyCount - 1) = .lt)) := by
  obtain ⟨lt, not_above, next⟩ := turns
  simp only [accepts]
  by_cases inner : i + 1 < n.keyCount
  · have last_above : outcome (n.keyCount - 1) = .gt := by
      refine Decidable.byContradiction fun low => ?_
      exact (rising (i + 1) (n.keyCount - 1) (by omega) (by omega)).1 low (next inner)
    rw [if_pos inner, last_above]
    simp
    rfl
  · have last : n.keyCount - 1 = i := by omega
    have nonempty : 0 < n.keyCount := by omega
    rw [if_neg inner, compares i lt, last]
    cases found : outcome i with
    | lt => simp [nonempty]
    | eq => simp
    | gt => exact absurd found not_above

theorem places_of_turns
    (compares : ∀ i < n.keyCount, n.compareAt sizes order target i = .ok (outcome i))
    (rising : Rising n.keyCount outcome) {floor : Option Nat}
    (turns : Turns n.keyCount outcome floor)
    (located : ∀ how,
      n.locate sizes order target how = settle (n.accepts sizes order target how) floor) :
    Places n sizes order target outcome floor := by
  have last := turns.isLast rising
  have inside : ∀ i, floor = some i → Turns n.keyCount outcome (some i) :=
    fun i found => found ▸ turns
  have lower : n.locate sizes order target .closestLower
      = .ok (floor.filter fun _ => !decide (0 < n.keyCount ∧ outcome (n.keyCount - 1) = .lt)) :=
    (located .closestLower).trans <| settle_eq_filter fun i found =>
      closestLower_accepts compares rising (inside i found)
  constructor
  case last => exact last
  case equal =>
    refine ⟨floor.filter (outcome · == .eq), ?_, last.equal rising⟩
    rw [located]
    exact settle_eq_filter fun i found => compareAt_accepts (compares i (inside i found).1)
  case beyond =>
    intro above_last
    rw [lower, decide_eq_true above_last]
    cases floor <;> rfl
  case within =>
    intro not_above_last
    rw [lower, decide_eq_false not_above_last]
    cases floor <;> rfl
  case unversioned =>
    intro nothing
    rw [located, nothing]
    rfl
  case versioned =>
    intro i found
    obtain ⟨key, read, -⟩ := bind_eq_ok.mp (compares i (inside i found).1)
    refine ⟨key, read, ?_⟩
    rw [located, found, settle]
    simp only [accepts, read]
    rfl

/-- How the keys compare that a node is seen to have. -/
def outcomeOf (view : KeyView order) (keys : List τ) (target : τ) (i : Nat) : Ordering :=
  (keys[i]?.map (view.cmp · target)).getD .gt

theorem outcomeOf_eq {view : KeyView order} {keys : List τ} {i : Nat} (h : i < keys.length) :
    outcomeOf view keys target i = view.cmp keys[i] target := by
  simp [outcomeOf, h]

theorem compareAt_outcomeOf {view : KeyView order} {keys : List τ}
    (has : n.HasKeys sizes view keys) (target : τ) :
    ∀ i < n.keyCount, n.compareAt sizes order target i = .ok (outcomeOf view keys target i) := by
  intro i lt
  have h : i < keys.length := has.1 ▸ lt
  rw [compareAt_of_keys has target h, outcomeOf_eq h]

/-- Keys in order compare in order. -/
theorem rising_of_ascending {view : KeyView order} {keys : List τ}
    (ascending : view.Ascending keys) (target : τ) :
    Rising keys.length (outcomeOf view keys target) := by
  have := view.trans
  intro i j le lt
  rcases Nat.eq_or_lt_of_le le with same | before
  · rw [same]
    exact ⟨id, id⟩
  · have in_order := List.pairwise_iff_getElem.mp ascending i j (by omega) lt before
    rw [outcomeOf_eq lt, outcomeOf_eq (Nat.lt_trans before lt)]
    simp only [Ne, ← Ordering.isLE_iff_ne_gt]
    exact ⟨fun low => Std.TransCmp.isLE_trans in_order low, fun below =>
      Std.TransCmp.lt_of_isLE_of_lt in_order below⟩

/-- The place of the newest version of an object up to a transaction, the last one among equal
keys, or nothing where every version is newer. -/
def IsNewest (keys : List VersionKey) (target : VersionKey) : Option Nat → Prop
  | none => ∀ k ∈ keys, k.oid = target.oid → target.xid < k.xid
  | some i => ∃ h : i < keys.length, keys[i].oid = target.oid ∧ keys[i].xid ≤ target.xid ∧
      ∀ j (h : j < keys.length), keys[j].oid = target.oid → keys[j].xid ≤ target.xid →
        keys[j].xid ≤ keys[i].xid ∧ j ≤ i

theorem not_above_version {keys : List VersionKey} {target : VersionKey} {i : Nat}
    (h : i < keys.length) : outcomeOf versionKeys keys target i ≠ .gt ↔
      keys[i].oid < target.oid ∨ (keys[i].oid = target.oid ∧ keys[i].xid ≤ target.xid) := by
  rw [outcomeOf_eq h, Ne, ← Ordering.isLE_iff_ne_gt]
  exact VersionKey.isLE_compare _ _

/-- A key in front is of an object in front, or of the same object and no newer. -/
theorem before_of_ascending {keys : List VersionKey} (ascending : versionKeys.Ascending keys)
    {i j : Nat} (le : j ≤ i) (h : i < keys.length) :
    keys[j].oid < keys[i].oid ∨ (keys[j].oid = keys[i].oid ∧ keys[j].xid ≤ keys[i].xid) := by
  rcases Nat.eq_or_lt_of_le le with rfl | before
  · exact .inr ⟨rfl, UInt64.le_refl _⟩
  · have in_order := List.pairwise_iff_getElem.mp ascending j i (by omega) h before
    exact (VersionKey.isLE_compare _ _).mp in_order

/-- The last key that is not above a version is, if it is of the object, the newest one. -/
theorem newest_of_last {keys : List VersionKey} {target : VersionKey} {floor : Option Nat}
    (last : IsLast keys.length (outcomeOf versionKeys keys target · ≠ .gt) floor)
    (ascending : versionKeys.Ascending keys) :
    IsNewest keys target (floor.filter fun i => keys[i]?.any (·.oid == target.oid)) := by
  have version : ∀ j (h : j < keys.length), keys[j].oid = target.oid →
      keys[j].xid ≤ target.xid → outcomeOf versionKeys keys target j ≠ .gt :=
    fun j h same le => (not_above_version h).mpr (.inr ⟨same, le⟩)
  cases floor with
  | none =>
    intro k mem same
    obtain ⟨j, h, rfl⟩ := List.getElem_of_mem mem
    exact UInt64.not_le.mp fun le => last j h (version j h same le)
  | some i =>
    obtain ⟨h, low, greatest⟩ := last
    rw [Option.filter_some, List.getElem?_eq_getElem h, Option.any_some]
    by_cases own : keys[i].oid = target.oid
    · rw [if_pos (beq_iff_eq.mpr own)]
      refine ⟨h, own, ?_, fun j h' same le => ?_⟩
      · rcases (not_above_version h).mp low with lower | ⟨-, le⟩
        · rw [own] at lower
          exact absurd lower (UInt64.lt_irrefl _)
        · exact le
      · have before := greatest j h' (version j h' same le)
        refine ⟨?_, before⟩
        rcases before_of_ascending ascending before h with lower | ⟨-, le⟩
        · rw [same, own] at lower
          exact absurd lower (UInt64.lt_irrefl _)
        · exact le
    · rw [if_neg fun same => own (beq_iff_eq.mp same)]
      intro k mem same
      obtain ⟨j, h', rfl⟩ := List.getElem_of_mem mem
      refine UInt64.not_le.mp fun le => ?_
      -- A version that is old enough would lie at or before the last key, which is of an
      -- object in front of it.
      have own_lower : keys[i].oid < target.oid :=
        ((not_above_version h).mp low).resolve_right fun equal => own equal.1
      rw [← same] at own_lower own
      have before := greatest j h' (version j h' same le)
      rcases before_of_ascending ascending before h with lower | ⟨same_oid, -⟩
      · exact UInt64.lt_irrefl _ (UInt64.lt_trans lower own_lower)
      · exact own same_oid.symm

/-- Among versions in order a search for one ends at the newest. -/
theorem locate_newest {keys : List VersionKey} (has : n.HasKeys sizes versionKeys keys)
    (ascending : versionKeys.Ascending keys) (target : VersionKey) :
    ∃ place, n.locate sizes VersionKey.order target .versioned = .ok place ∧
      IsNewest keys target place := by
  have rising := rising_of_ascending ascending target
  obtain ⟨floor, turns, located⟩ := locate_turns (compareAt_outcomeOf has target)
  rw [has.1] at turns
  refine ⟨_, ?_, newest_of_last (turns.isLast rising) ascending⟩
  rw [located]
  refine settle_eq_filter fun i found => ?_
  subst found
  have h : i < keys.length := turns.1
  rw [accepts_of_keys has target .versioned h, List.getElem?_eq_getElem h]
  rfl

/-- Where a search of one node ends, if every key of the node compares with the target. -/
theorem locate_places (n : Node) (sizes : Option EntrySizes) (order : KeyOrder τ) (target : τ)
    (outcome : Nat → Ordering)
    (compares : ∀ i < n.keyCount, n.compareAt sizes order target i = .ok (outcome i)) :
    ∃ floor, n.locate sizes order target .floor = .ok floor ∧ Turns n.keyCount outcome floor ∧
      (Rising n.keyCount outcome → Places n sizes order target outcome floor) ∧
      (∀ (view : KeyView order) (keys : List τ), n.HasKeys sizes view keys →
        view.Ascending keys → Rising n.keyCount outcome) ∧
      ∀ (version : VersionKey) (keys : List VersionKey), n.HasKeys sizes versionKeys keys →
        versionKeys.Ascending keys →
        ∃ place, n.locate sizes VersionKey.order version .versioned = .ok place ∧
          IsNewest keys version place := by
  obtain ⟨floor, turns, located⟩ := locate_turns compares
  refine ⟨floor, ?_, turns, fun rising => places_of_turns compares rising turns located, ?_,
    fun version keys has ascending => locate_newest has ascending version⟩
  · rw [located]
    cases floor <;> rfl
  · intro view keys has ascending i j le lt
    have same : ∀ k < n.keyCount, outcome k = outcomeOf view keys target k := fun k inside =>
      Except.ok.inj ((compares k inside).symm.trans (compareAt_outcomeOf has target k inside))
    rw [same i (by omega), same j lt]
    exact rising_of_ascending ascending target i j le (has.1 ▸ lt)

def fourVersions : Node where
  order := .big
  bytes := ⟨Array.replicate 56 0 ++ #[0, 0, 0, 0, 0, 16, 0, 0, 0, 32, 0, 0, 0, 48, 0, 0] ++
    #[0, 0, 0, 0, 0, 0, 0, 5, 0, 0, 0, 0, 0, 0, 0, 1] ++
    #[0, 0, 0, 0, 0, 0, 0, 7, 0, 0, 0, 0, 0, 0, 0, 3] ++
    #[0, 0, 0, 0, 0, 0, 0, 7, 0, 0, 0, 0, 0, 0, 0, 3] ++
    #[0, 0, 0, 0, 0, 0, 0, 9, 0, 0, 0, 0, 0, 0, 0, 2]⟩
  header := ⟨⟨0, 7, 1, TypeWord.treeNode, 0⟩, NodeHeader.leafFlag ||| NodeHeader.fixedFlag, 0, 4,
    ⟨0, 16⟩, ⟨64, 0⟩, ⟨0, 0⟩, ⟨0, 0⟩⟩
  footer := none
  leaf_iff_level := by decide

def fourKeys : List VersionKey := [⟨5, 1⟩, ⟨7, 3⟩, ⟨7, 3⟩, ⟨9, 2⟩]

theorem fourVersions_keys : fourVersions.HasKeys (some ⟨16, 16⟩) versionKeys fourKeys := by
  have decoded : ∀ i < 4, (do VersionKey.parse .big (← fourVersions.key (some ⟨16, 16⟩) i))
      = .ok (fourKeys[i]?.getD ⟨0, 0⟩) := by decide +kernel
  have order_eq : fourVersions.order = .big := rfl
  have decode_eq : versionKeys.decode = VersionKey.parse := rfl
  refine ⟨by decide +kernel, fun i h => ?_⟩
  obtain ⟨stored, read, parsed⟩ := bind_eq_ok.mp (decoded i h)
  refine ⟨stored, read, ?_⟩
  rw [order_eq, decode_eq, parsed, List.getElem?_eq_getElem h, Option.getD_some]

/-- Of equal keys the last is found, in whichever way the key has to match. -/
theorem locate_places_four_versions :
    fourVersions.locate (some ⟨16, 16⟩) VersionKey.order ⟨7, 3⟩ .exact = .ok (some 2) ∧
      fourVersions.locate (some ⟨16, 16⟩) VersionKey.order ⟨7, 6⟩ .versioned = .ok (some 2) := by
  have has := fourVersions_keys
  have ascending : versionKeys.Ascending fourKeys := by
    change List.Pairwise (fun a b : VersionKey => (VersionKey.compare a b).isLE = true) fourKeys
    decide
  obtain ⟨floor, -, -, in_order, rises, newest⟩ :=
    locate_places fourVersions (some ⟨16, 16⟩) VersionKey.order ⟨7, 3⟩ _
      (compareAt_outcomeOf has ⟨7, 3⟩)
  constructor
  · obtain ⟨place, found, last⟩ := (in_order (rises versionKeys _ has ascending)).equal
    rw [has.1] at last
    rw [found]
    cases place with
    | none => exact absurd rfl (last 2 (by decide))
    | some i =>
      obtain ⟨lt, equal, greatest⟩ := last
      have lower : 2 ≤ i := greatest 2 (by decide) rfl
      match i, lt, equal with
      | 2, _, _ => rfl
      | 3, _, equal => cases equal
  · obtain ⟨place, found, is_newest⟩ := newest ⟨7, 6⟩ _ has ascending
    rw [found]
    cases place with
    | none => exact absurd (is_newest ⟨7, 3⟩ (by decide) rfl) (by decide)
    | some i =>
      obtain ⟨h, same, -, greatest⟩ := is_newest
      have lower : 2 ≤ i := (greatest 2 (by decide) rfl (by decide)).2
      match i, h, same with
      | 2, _, _ => rfl
      | 3, _, same => cases same

end Node

end ObjectStore.Tree
