import ObjectStore.Tree.KeyOrder
import ObjectStore.Tree.Node

/-
Binary search among the keys of one node. The search finds where the keys stop being at or
below the target; what it accepts at that place depends on how the key has to match.
-/
namespace ObjectStore.Tree

/-- Halves the range from `lo` to `hi` until it is empty. What lies below the answer is not
`above`, and what lies at the answer is, as far as either was asked. -/
def bisect (above : Nat → Except DecodeError Bool) (lo hi : Nat) : Except DecodeError Nat :=
  if lo < hi then do
    let mid := lo + (hi - lo) / 2
    if ← above mid then bisect above lo mid else bisect above (mid + 1) hi
  else return lo
termination_by hi - lo
decreasing_by all_goals omega

/-- How the entry found has to match the target. -/
inductive Match where
  /-- The last entry at or below it. -/
  | floor
  /-- The floor, unless the target is beyond the last entry. -/
  | closestLower
  /-- The floor, if its key equals the target. -/
  | exact
  /-- The floor, if its key is a version of the target. -/
  | versioned
  deriving DecidableEq, Repr

namespace Node

/-- How the key of an entry compares with the target. -/
def compareAt (n : Node) (sizes : Option EntrySizes) (order : KeyOrder τ) (target : τ)
    (index : Nat) : Except DecodeError Ordering := do
  order.compare n.order (← n.key sizes index) target

/-- Whether the floor is what a search of this kind accepts. -/
def accepts (n : Node) (sizes : Option EntrySizes) (order : KeyOrder τ) (target : τ)
    (how : Match) (floor : Nat) : Except DecodeError Bool := do
  match how with
  | .floor => return true
  | .closestLower =>
      if floor + 1 < n.keyCount then return true
      else return (← n.compareAt sizes order target floor) == .eq
  | .exact => return (← n.compareAt sizes order target floor) == .eq
  | .versioned => order.sameIdentity n.order (← n.key sizes floor) target

def locate (n : Node) (sizes : Option EntrySizes) (order : KeyOrder τ) (target : τ)
    (how : Match) : Except DecodeError (Option Nat) := do
  let stop ← bisect (fun i => return (← n.compareAt sizes order target i) == .gt) 0 n.keyCount
  match stop with
  | 0 => return none
  | floor + 1 => return if ← n.accepts sizes order target how floor then some floor else none

end Node

end ObjectStore.Tree
