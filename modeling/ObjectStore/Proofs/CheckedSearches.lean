import ObjectStore.ObjectMap.Record
import ObjectStore.Proofs.Bisection
import ObjectStore.Proofs.CheckedNodes

/-
Searches in one node on a machine. The bounds of the search stay between zero and the number of
keys, so that neither its middle nor the place behind it leaves a word.
-/
namespace ObjectStore

open ObjectStore.Tree

structure Comparer (order : KeyOrder τ) where
  compare : ByteOrder → Bytes → τ → Decoding Ordering
  sameIdentity : ByteOrder → Bytes → τ → Decoding Bool
  compare_runs : ∀ e stored target,
    Runs (compare e stored target) (order.compare e stored target)
  sameIdentity_runs : ∀ e stored target,
    Runs (sameIdentity e stored target) (order.sameIdentity e stored target)

namespace Comparer

def plain (order : KeyOrder τ) : Comparer order where
  compare e stored target := ofExcept (order.compare e stored target)
  sameIdentity e stored target := ofExcept (order.sameIdentity e stored target)
  compare_runs _ _ _ := .ofExcept _
  sameIdentity_runs _ _ _ := .ofExcept _

def word : Comparer KeyOrder.word where
  compare e stored target := (Ord.compare · target) <$> Checked.word e .eight stored 0
  sameIdentity e stored target :=
    (· == .eq) <$> (Ord.compare · target) <$> Checked.word e .eight stored 0
  compare_runs e stored _ := (Checked.word_runs e .eight stored 0).map _
  sameIdentity_runs e stored _ := ((Checked.word_runs e .eight stored 0).map _).map _

def version : Comparer VersionKey.order where
  compare e stored target := (VersionKey.compare · target) <$> Checked.versionKey e stored
  sameIdentity e stored target := (·.oid == target.oid) <$> Checked.versionKey e stored
  compare_runs e stored _ := (Checked.versionKey_runs e stored).map _
  sameIdentity_runs e stored _ := (Checked.versionKey_runs e stored).map _

end Comparer

namespace Checked

def middle (lo hi : Nat) : Machine Nat := do
  let gap ← Machine.sub hi lo
  let half ← Machine.div gap 2
  Machine.add 32 lo half

theorem middle_eq {lo hi : Nat} (lt : lo < hi) (word : hi < 2 ^ 32) :
    middle lo hi = .ok (lo + (hi - lo) / 2) := by
  unfold middle
  rw [Machine.sub_eq (by omega), ok_bind, Machine.div_eq (by decide), ok_bind,
    Machine.add_eq (by omega)]

theorem eq_of_middle {lo hi mid : Nat} (ran : middle lo hi = .ok mid) :
    mid = lo + (hi - lo) / 2 := by
  obtain ⟨gap, subtracted, rest⟩ := bind_eq_ok.mp ran
  obtain ⟨half, halved, added⟩ := bind_eq_ok.mp rest
  rw [Machine.eq_of_add added, Machine.eq_of_div halved, Machine.eq_of_sub subtracted]

def bisect (above : Nat → Decoding Bool) (lo hi : Nat) : Decoding Nat :=
  if lo < hi then do
    let ⟨mid, _⟩ ← Machine.known (middle lo hi)
    if ← above mid then bisect above lo mid
    else do
      let ⟨next, _⟩ ← Machine.known (Machine.add 32 mid 1)
      bisect above next hi
  else return lo
termination_by hi - lo
decreasing_by
  · have isMiddle := eq_of_middle ‹middle lo hi = .ok mid›
    omega
  · have isMiddle := eq_of_middle ‹middle lo hi = .ok mid›
    have isNext := Machine.eq_of_add ‹Machine.add 32 mid 1 = .ok next›
    omega

theorem bisect_runs {above' : Nat → Decoding Bool} {above : Nat → Except DecodeError Bool}
    (each : ∀ i, Runs (above' i) (above i)) {lo hi : Nat} (word : hi < 2 ^ 32) :
    Runs (bisect above' lo hi) (Tree.bisect above lo hi) := by
  induction lo, hi using Tree.bisect.induct with
  | case1 lo hi lt mid ihLow ihHigh =>
    have mid_eq : mid = lo + (hi - lo) / 2 := rfl
    rw [bisect, Tree.bisect, if_pos lt, if_pos lt]
    refine .carried (Machine.known_eq (middle_eq lt word)) ?_
    refine (each mid).bind fun answer _ => ?_
    cases answer with
    | true => exact ihLow (by omega)
    | false => exact .carried (Machine.known_eq (Machine.add_eq (by omega))) (ihHigh word)
  | case2 lo hi done =>
    rw [bisect, if_neg done, bisect_empty done]
    exact .done lo

variable {τ : Type} {order : KeyOrder τ}

def compareAt (c : Comparer order) (n : Node) (sizes : Option EntrySizes) (target : τ)
    (index : Nat) : Decoding Ordering := do
  let stored ← key n sizes index
  c.compare n.order stored target

def accepts (c : Comparer order) (n : Node) (sizes : Option EntrySizes) (target : τ)
    (how : Match) (floor : Nat) : Decoding Bool := do
  match how with
  | .floor => return true
  | .closestLower =>
      let next ← Machine.add 32 floor 1
      if next < n.keyCount then return true
      else return (← compareAt c n sizes target floor) == .eq
  | .exact => return (← compareAt c n sizes target floor) == .eq
  | .versioned =>
      let stored ← key n sizes floor
      c.sameIdentity n.order stored target

def locate (c : Comparer order) (n : Node) (sizes : Option EntrySizes) (target : τ)
    (how : Match) : Decoding (Option Nat) := do
  let stop ← bisect (fun i => return (← compareAt c n sizes target i) == .gt) 0 n.keyCount
  match Machine.checkedSub stop 1 with
  | none => return none
  | some floor => return if ← accepts c n sizes target how floor then some floor else none

variable {n : Node}

theorem compareAt_runs (c : Comparer order) (decoded : n.Decoded) (sizes : Option EntrySizes)
    (target : τ) (index : Nat) :
    Runs (compareAt c n sizes target index) (n.compareAt sizes order target index) :=
  (key_runs decoded sizes index).bind fun stored _ => c.compare_runs n.order stored target

theorem accepts_runs (c : Comparer order) (decoded : n.Decoded) (sizes : Option EntrySizes)
    (target : τ) (how : Match) {floor : Nat} (inside : floor < n.keyCount) :
    Runs (accepts c n sizes target how floor) (n.accepts sizes order target how floor) := by
  have count : n.keyCount < 2 ^ 32 := n.header.keyCount.toNat_lt
  have equal : Runs (do return (← compareAt c n sizes target floor) == .eq)
      (do return (← n.compareAt sizes order target floor) == .eq) :=
    (compareAt_runs c decoded sizes target floor).bind fun _ _ => .done _
  cases how with
  | floor => exact .done true
  | closestLower =>
    refine .carried (Machine.add_eq (by omega)) ?_
    exact .branch (fun _ => .done true) fun _ => equal
  | exact => exact equal
  | versioned =>
    exact (key_runs decoded sizes floor).bind fun stored _ =>
      c.sameIdentity_runs n.order stored target

theorem locate_runs (c : Comparer order) (decoded : n.Decoded) (sizes : Option EntrySizes)
    (target : τ) (how : Match) :
    Runs (locate c n sizes target how) (n.locate sizes order target how) := by
  have count : n.keyCount < 2 ^ 32 := n.header.keyCount.toNat_lt
  refine (bisect_runs (fun i => ?_) count).bind fun stop found => ?_
  · exact (compareAt_runs c decoded sizes target i).bind fun _ _ => .done _
  have stop_le := (bisect_asked (Nat.zero_le _) found).2.1
  cases stop with
  | zero => exact .done none
  | succ floor =>
    rw [Machine.checkedSub_eq (by omega)]
    exact (accepts_runs c decoded sizes target how (by omega)).bind fun _ _ => .done _

end Checked

end ObjectStore
