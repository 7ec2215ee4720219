import ObjectStore.StoreError
import ObjectStore.Tree.Locate

/-
Descents and walks below a root. Nodes come from a source that turns references into decoded
nodes; a child has to lie exactly one level below its parent, which bounds every descent by the
level of the root, and a block that is reached again is told apart from one at a wrong level.
-/
namespace ObjectStore.Tree

structure Loaded where
  address : BlockAddress
  node : Node
  deriving DecidableEq

/-- Trees whose root lies higher than this are refused where nothing else is said. -/
def standardDepth : UInt16 := 16

structure Navigator (m : Type → Type) where
  source : Reference → m Loaded
  maxDepth : UInt16

/-- What a descent keeps of its root. -/
structure Trunk where
  root : Reference
  address : BlockAddress
  sizes : Option EntrySizes
  deriving DecidableEq

structure Found where
  key : Bytes
  value : Bytes
  index : Nat
  address : BlockAddress
  deriving DecidableEq

/-- A child has to lie one level below its parent and must not be a root. -/
def childFault? (reference : Reference) (parent child : Loaded) : Option StoreError :=
  let expected := parent.node.level.toNat - 1
  if child.node.level.toNat = expected ∧ child.node.isRoot = false then none
  else some (.corrupt child.address (s!"child {reference.text} of block {parent.address}" ++
    s!" has level {child.node.level} (root={child.node.isRoot}), expected level {expected}"))

namespace Navigator

variable {m : Type → Type} [Monad m] [MonadExceptOf StoreError m]

/-- The node at `root`, which has to be the root of a tree that is not too deep. -/
def rootNode (nav : Navigator m) (root : Reference) : m Loaded := do
  let top ← nav.source root
  if !top.node.isRoot then
    throw (.corrupt top.address s!"{root.text} is not a B-tree root node")
  if nav.maxDepth < top.node.level then throw (.treeTooDeep top.address nav.maxDepth)
  return top

/-- Reads the child that an entry points to, in the address space of the root. -/
def readChild (nav : Navigator m) (root : Reference) (sizes : Option EntrySizes)
    (parent : Loaded) (index : Nat) : m (Reference × Loaded) := do
  let oid ← decodedAt parent.address (parent.node.child sizes index)
  let reference := root.sibling oid
  return (reference, ← nav.source reference)

def childNode (nav : Navigator m) (root : Reference) (sizes : Option EntrySizes)
    (parent : Loaded) (index : Nat) : m Loaded := do
  let (reference, child) ← nav.readChild root sizes parent index
  match childFault? reference parent child with
  | some fault => throw fault
  | none => return child

/-- Goes down to a child. One that is on `path`, the blocks entered above it, closes a cycle. -/
def step (nav : Navigator m) (trunk : Trunk) (path : List BlockAddress) (parent : Loaded)
    (index : Nat) : m Loaded := do
  let (reference, child) ← nav.readChild trunk.root trunk.sizes parent index
  if path.contains child.address then throw (.treeTooDeep trunk.address nav.maxDepth)
  match childFault? reference parent child with
  | some fault => throw fault
  | none => return child

/-- The entry of a node that matches, and the tree's own error when none does. -/
def locateIn (trunk : Trunk) (order : KeyOrder τ) (target : τ) (how : Match)
    (here : Loaded) : m Nat := do
  match ← decodedAt here.address (here.node.locate trunk.sizes order target how) with
  | some index => return index
  | none => throw (.keyNotFound s!"{order.describe target} in tree {trunk.root.text}")

def recordAt (trunk : Trunk) (here : Loaded) (index : Nat) : m (Bytes × Bytes) := do
  let key ← decodedAt here.address (here.node.key trunk.sizes index)
  let value ← decodedAt here.address (here.node.value trunk.sizes index)
  return (key, value)

/-- Searches below `here`, a node of the given level. Index nodes are searched for the floor;
`rightmost` says that no entry passed over lies to the right of `here`. -/
def findBelow (nav : Navigator m) (trunk : Trunk) (order : KeyOrder τ) (target : τ)
    (how : Match) : Nat → List BlockAddress → Bool → Loaded → m Found
  | 0, _, rightmost, here => do
      let leafMatch := if how = .closestLower ∧ rightmost = false then .floor else how
      let index ← locateIn trunk order target leafMatch here
      let (key, value) ← recordAt trunk here index
      return ⟨key, value, index, here.address⟩
  | level + 1, path, rightmost, here => do
      let index ← locateIn trunk order target .floor here
      let child ← nav.step trunk path here index
      findBelow nav trunk order target how level (child.address :: path)
        (rightmost && index + 1 == here.node.keyCount) child

def trunkOf (root : Reference) (top : Loaded) : Trunk :=
  ⟨root, top.address, top.node.entrySizes⟩

def find (nav : Navigator m) (order : KeyOrder τ) (root : Reference) (target : τ)
    (how : Match) : m Found := do
  let top ← nav.rootNode root
  nav.findBelow (trunkOf root top) order target how top.node.level.toNat [top.address] true top

/-- Blocks entered so far and records visited so far. -/
structure Progress where
  entered : List BlockAddress
  count : Nat
  deriving DecidableEq

/-- A block may be entered once. -/
def enter (here : Loaded) (p : Progress) : m Progress := do
  if p.entered.contains here.address then
    throw (.corrupt here.address "B-tree node reachable from two parents")
  return { p with entered := here.address :: p.entered }

/-- Visits the records below `here`, a node of the given level, from left to right. -/
def walkBelow (nav : Navigator m) (trunk : Trunk) (visit : Bytes → Bytes → m Unit) :
    Nat → List BlockAddress → Loaded → Progress → m Progress
  | 0, _, here, p => do
      let p ← enter here p
      (List.range here.node.keyCount).foldlM (fun p index => do
        let (key, value) ← recordAt trunk here index
        visit key value
        return { p with count := p.count + 1 }) p
  | level + 1, path, here, p => do
      let p ← enter here p
      (List.range here.node.keyCount).foldlM (fun p index => do
        let child ← nav.step trunk (here.address :: path) here index
        walkBelow nav trunk visit level (here.address :: path) child p) p

/-- Visits every leaf record in order and counts them. -/
def walk (nav : Navigator m) (root : Reference) (visit : Bytes → Bytes → m Unit) : m Nat := do
  let top ← nav.rootNode root
  let p ← nav.walkBelow (trunkOf root top) visit top.node.level.toNat [] top ⟨[], 0⟩
  return p.count

variable {σ τ : Type}

/-- The same navigator, beside a state of another kind. -/
def beside (nav : Navigator (Session σ)) : Navigator (Session (σ × τ)) :=
  ⟨fun reference => Session.onLeft (nav.source reference), nav.maxDepth⟩

/-- A walk whose visitor has a state of its own, which like that of the reader outlives an error. -/
def walkWith (nav : Navigator (Session σ)) (root : Reference)
    (visit : Bytes → Bytes → Session τ Unit) : Session (σ × τ) Nat :=
  nav.beside.walk root fun key value => Session.onRight (visit key value)

end Navigator

end ObjectStore.Tree
