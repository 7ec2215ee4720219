import ObjectStore.Draft.Node
import ObjectStore.Object.Reference

/-
Trees to be built from a list of entries. The leaves come first and take the entries in the
order given; each level above holds the first key of every node below it with a pointer to that
node, until one node is left.
-/
namespace ObjectStore

/-- The list cut into pieces of `n`, the last of which may be shorter. -/
def chunks (n : Nat) : List α → List (List α)
  | [] => []
  | a :: rest => (a :: rest.take (n - 1)) :: chunks n (rest.drop (n - 1))
termination_by l => l.length
decreasing_by simp only [List.length_drop, List.length_cons]; omega

theorem chunks_length_le (n : Nat) (l : List α) : (chunks n l).length ≤ l.length := by
  induction l using chunks.induct n with
  | case1 => simp [chunks]
  | case2 a rest ih =>
    rw [chunks]
    simp only [List.length_cons]
    have := rest.length_drop (i := n - 1)
    omega

/-- With two or more to a piece there are fewer pieces than elements. -/
theorem chunks_length_lt {n : Nat} (wide : 2 ≤ n) {l : List α} (many : 2 ≤ l.length) :
    (chunks n l).length < l.length := by
  match l, many with
  | a :: rest, many =>
    rw [chunks]
    have le := chunks_length_le n (rest.drop (n - 1))
    simp only [List.length_cons, List.length_drop] at *
    omega

structure TreeDraft where
  order : ByteOrder
  nodeSize : Nat
  layout : EntryLayout
  storage : StorageClass
  subtype : UInt32
  xid : TransactionId
  fanout : Nat
  firstOid : ObjectId
  firstAddress : BlockAddress

structure BuiltNode where
  oid : ObjectId
  address : BlockAddress
  level : Nat
  bytes : Bytes
  deriving DecidableEq

structure BuiltTree where
  storage : StorageClass
  /-- The nodes below the root, in the order of their addresses. -/
  below : List BuiltNode
  root : BuiltNode
  deriving DecidableEq

/-- All nodes, the root last. -/
def BuiltTree.nodes (t : BuiltTree) : List BuiltNode := t.below ++ [t.root]

/-- The reference under which a tree is found at a transaction. -/
def BuiltTree.rootRef (t : BuiltTree) (xid : TransactionId) : Reference :=
  match t.storage with
  | .physical => .physical t.root.address
  | .virtual => .virtual t.root.oid xid
  | .ephemeral => .ephemeral t.root.oid

/-- A node that is to be built, as the number `index` of its tree. -/
structure PlannedNode where
  index : Nat
  level : Nat
  root : Bool
  entries : List Entry

namespace TreeDraft

def blank (order : ByteOrder) (nodeSize : Nat) (layout : EntryLayout) : TreeDraft where
  order := order
  nodeSize := nodeSize
  layout := layout
  storage := .physical
  subtype := TypeWord.objectMap
  xid := 1
  fanout := 64
  firstOid := 0x1000
  firstAddress := 1

def addressOf (d : TreeDraft) (index : Nat) : BlockAddress := d.firstAddress + index.toUInt64

/-- Physical nodes are named by their address. -/
def oidOf (d : TreeDraft) (index : Nat) : ObjectId :=
  match d.storage with
  | .physical => d.addressOf index
  | .virtual | .ephemeral => d.firstOid + index.toUInt64

def pointerTo (d : TreeDraft) (p : PlannedNode) : Entry :=
  ((p.entries.head?.map Prod.fst).getD ByteArray.empty, wordBytes d.order (d.oidOf p.index))

/-- The nodes of one level below the root, numbered from `next` on. -/
def planLevel (level next : Nat) (groups : List (List Entry)) : List PlannedNode :=
  groups.zipIdx.map fun (entries, i) => ⟨next + i, level, false, entries⟩

/-- The nodes of a level and of those above it in the order of their numbers, and the root. -/
def planFrom (d : TreeDraft) (wide : 2 ≤ d.fanout) (level next : Nat)
    (groups : List (List Entry)) : List PlannedNode × PlannedNode :=
  if groups.length ≤ 1 then ([], ⟨next, level, true, groups.headD []⟩)
  else
    let here := planLevel level next groups
    let (above, root) := d.planFrom wide (level + 1) (next + groups.length)
      (chunks d.fanout (here.map d.pointerTo))
    (here ++ above, root)
termination_by groups.length
decreasing_by
  have := @chunks_length_lt _ _ wide ((planLevel level next groups).map d.pointerTo)
  simp only [planLevel, List.length_map, List.length_zipIdx] at this
  simp only [planLevel]
  omega

/-- The entries of the leaves; a tree without entries is one empty leaf. -/
def leafGroups (d : TreeDraft) (entries : List Entry) : List (List Entry) :=
  if entries.isEmpty then [[]] else chunks d.fanout entries

/-- What the root of a tree of `nodeCount` nodes says of it. -/
def footer (d : TreeDraft) (entries : List Entry) (nodeCount : Nat) :
    Except BuildError Tree.Footer := do
  return {
    flags := match d.storage with
      | .physical => Tree.Footer.physicalFlag
      | .virtual => 0
      | .ephemeral => Tree.Footer.ephemeralFlag
    nodeSize := ← NodeDraft.fit32 "node size" d.nodeSize
    keySize := d.layout.stated.key
    valueSize := d.layout.stated.value
    longestKey := (min (Entry.longestKey entries) (UInt32.size - 1)).toUInt32
    longestValue := (min (Entry.longestValue entries) (UInt32.size - 1)).toUInt32
    keyCount := entries.length.toUInt64
    nodeCount := nodeCount.toUInt64 }

def buildNode (d : TreeDraft) (entries : List Entry) (p : PlannedNode) :
    Except BuildError BuiltNode := do
  let code := if p.root then TypeWord.tree else TypeWord.treeNode
  let footer ← if p.root then (d.footer entries (p.index + 1)).map some else pure none
  let node : NodeDraft := {
    order := d.order
    nodeSize := d.nodeSize
    object := ⟨0, d.oidOf p.index, d.xid, code ||| d.storage.typeBits, d.subtype⟩
    level := p.level.toUInt16
    root := p.root
    layout := d.layout
    flags := 0
    footer := footer
    entries := p.entries }
  let bytes ← node.build.mapError (.atLevel p.level)
  return ⟨d.oidOf p.index, d.addressOf p.index, p.level, bytes⟩

def build (d : TreeDraft) (entries : List Entry) : Except BuildError BuiltTree := do
  if wide : 2 ≤ d.fanout then
    let (below, top) := d.planFrom wide 0 0 (d.leafGroups entries)
    let below ← below.mapM (d.buildNode entries)
    let root ← d.buildNode entries top
    return ⟨d.storage, below, root⟩
  else throw .fanout

end TreeDraft

end ObjectStore
