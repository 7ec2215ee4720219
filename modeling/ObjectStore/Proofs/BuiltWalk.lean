import ObjectStore.Proofs.Spreads
import ObjectStore.Proofs.TreeSearch
import ObjectStore.Proofs.TreeShape

/-
Walks of trees that have been built. Building a tree and walking it gives back the entries, in
whatever order they were given, since neither of the two looks at a key.
-/
namespace ObjectStore

open Session

namespace Tree

/-- All keys are one to what does not look at them. -/
def KeyOrder.blind : KeyOrder Unit := .ofCompare (fun _ _ _ => .ok .eq) fun _ => ""

def blindKeys : KeyView KeyOrder.blind where
  decode _ _ := .ok ()
  cmp _ _ := .eq
  same _ _ := true
  trans := { eq_swap := rfl, isLE_trans := fun _ _ => rfl }
  lawful := { compare_self := rfl, eq_of_compare := fun _ => rfl }
  compare_eq _ _ _ := rfl
  sameIdentity_eq _ _ _ := rfl

theorem forall₂_range {α : Type} {R : Nat → α → Prop} {n : Nat} {l : List α} (count : n = l.length)
    (each : ∀ i (h : i < l.length), R i l[i]) : List.Forall₂ R (List.range n) l := by
  subst count
  refine List.forall₂_iff_get.mpr ⟨List.length_range, fun i _ h => ?_⟩
  simpa using each i h

/-- A tree with keys is a tree when its keys are not looked at. -/
theorem spread_of_grown {τ : Type} {order : KeyOrder τ} {view : KeyView order}
    {read : Reference → Except StoreError Loaded} {root : Reference} {sizes : Option EntrySizes} :
    ∀ (level : Nat) {here : Loaded} {records : List (Record τ)} {blocks : List BlockAddress},
      Grown (fun reference loaded => read reference = .ok loaded) view root sizes level here records
        blocks →
      Spread read root sizes level here (records.map fun r => (r.found.key, r.found.value))
        blocks := by
  intro level
  induction level with
  | zero =>
    rintro here records _ ⟨rfl, count, bears⟩
    refine ⟨rfl, forall₂_range (by simp [count]) fun i h => ?_⟩
    have entry := bears i (by simpa using h)
    rw [List.getElem_map]
    exact ⟨entry.key_eq, entry.value_eq⟩
  | succ level ih =>
    rintro here _ _ ⟨branches, rfl, rfl, count, below⟩
    refine ⟨branches.map fun b =>
      ⟨b.top, b.records.map fun r => (r.found.key, r.found.value), b.blocks⟩, ?_, ?_,
      forall₂_range (by simp [count]) fun i h => ?_⟩
    · simp [List.flatMap_map]
    · simp [List.map_flatMap, List.flatMap_map]
    · obtain ⟨entry, grown⟩ := below i (by simpa using h)
      rw [List.getElem_map]
      exact ⟨⟨entry.pointer, entry.level_eq, entry.not_root⟩, ih grown⟩

/-- The nodes of a tree that has been built, found by their addresses and by their identifiers. -/
def Table.holding (e : ByteOrder) (t : BuiltTree) : Table :=
  t.nodes.foldl (fun table n => table.add (some n.oid) n.address n.bytes) (Table.empty e)

theorem Table.foldl_add (nodes : List BuiltNode) (table : Table) :
    nodes.foldl (fun table n => table.add (some n.oid) n.address n.bytes) table
      = ⟨table.order, (nodes.map fun n => (n.address, n.bytes)).reverse ++ table.blocks,
          (nodes.map fun n => (n.oid, n.address)).reverse ++ table.addresses⟩ := by
  induction nodes generalizing table with
  | nil => rfl
  | cons n nodes ih =>
    rw [List.foldl_cons, ih]
    simp [Table.add]

theorem Table.yields_source (table : Table) (reference : Reference) :
    Yields (fun _ => True) (table.source reference) (table.read reference) := by
  intro log _
  have noted : (Session.change (reference :: ·)).perform log = (.ok (), reference :: log) := rfl
  refine ⟨trivial, ?_⟩
  rw [Table.source, bind_of_ok noted, perform_ofExcept]

end Tree

open ObjectStore.Tree

namespace TreeDraft

variable {d : TreeDraft} {t : BuiltTree} {entries : List Entry}

/-- Every node that was built is read back under the identifier that leads to it. -/
theorem read_holding (built : d.build entries = .ok t) (few : t.nodes.length ≤ UInt64.size)
    (xid : TransactionId) {n : BuiltNode} (mem : n ∈ t.nodes) {node : Node}
    (parsed : Node.parse d.order n.bytes = .ok node) :
    (Table.holding d.order t).read ((t.rootRef xid).sibling n.oid) = .ok ⟨n.address, node⟩ := by
  obtain ⟨_, -, -, storage_eq⟩ := build_eq_ok built
  have block : (Table.holding d.order t).blocks.lookup n.address = some n.bytes := by
    rw [Table.holding, Table.foldl_add]
    refine lookup_of_mem ?_ (by simpa [Table.empty] using ⟨n, mem, rfl, rfl⟩)
    have distinct := (List.reverse_perm _).nodup_iff.mpr (addresses_nodup built few)
    simpa [Table.empty, Function.comp_def] using distinct
  have address : (Table.holding d.order t).addresses.lookup n.oid = some n.address := by
    rw [Table.holding, Table.foldl_add]
    refine lookup_of_mem ?_ (by simpa [Table.empty] using ⟨n, mem, rfl, rfl⟩)
    have distinct := (List.reverse_perm _).nodup_iff.mpr (oids_nodup built few)
    simpa [Table.empty, Function.comp_def] using distinct
  have located : (Table.holding d.order t).addressOf ((t.rootRef xid).sibling n.oid)
      = some n.address := by
    rw [BuiltTree.rootRef, storage_eq]
    cases storage : d.storage with
    | «virtual» => exact address
    | ephemeral => exact address
    | physical =>
      obtain ⟨i, h, rfl⟩ := List.getElem_of_mem mem
      obtain ⟨address_eq, oid_eq⟩ := address_of_build built h
      rw [oidOf, storage, ← address_eq] at oid_eq
      exact congrArg some oid_eq
  have order_eq : (Table.holding d.order t).order = d.order := by
    rw [Table.holding, Table.foldl_add]
    rfl
  rw [Table.read, located]
  dsimp only
  rw [block]
  dsimp only
  rw [order_eq, parsed]
  rfl

theorem rootRef_sibling (built : d.build entries = .ok t) (xid : TransactionId) :
    (t.rootRef xid).sibling t.root.oid = t.rootRef xid := by
  obtain ⟨wide, -, top_eq, storage_eq⟩ := build_eq_ok built
  obtain ⟨_, _, -, -, same⟩ := buildNode_eq_ok top_eq
  rw [BuiltTree.rootRef, storage_eq, same]
  cases storage : d.storage with
  | physical => exact congrArg Reference.physical (by rw [oidOf, storage])
  | «virtual» => rfl
  | ephemeral => rfl

/-- What a tree was built from is read back as a tree, by whatever reads its nodes. -/
theorem spread_of_build (built : d.build entries = .ok t)
    (small : d.nodeSize ≤ NodeDraft.largestNode) (few : t.nodes.length ≤ UInt64.size)
    (xid : TransactionId) {maxDepth : UInt16} (deep : t.root.level ≤ maxDepth.toNat)
    {read : Reference → Except StoreError Loaded}
    (reading : ∀ n ∈ t.nodes, ∀ node, Node.parse d.order n.bytes = .ok node →
      read ((t.rootRef xid).sibling n.oid) = .ok ⟨n.address, node⟩) :
    ∃ top blocks, SpreadTree read (t.rootRef xid) maxDepth top entries blocks := by
  have plain : (entries.map fun entry => (entry, ())).map Prod.fst = entries := by
    simp [Function.comp_def]
  have root_eq := rootRef_sibling built xid
  rw [← plain] at built
  obtain ⟨wide, node, records, blocks, sound, is_root, reads_top, grown, distinct, records_eq⟩ :=
    grown_of_build blindKeys (fun reference loaded => read reference = .ok loaded) built small few
      (fun _ _ => rfl) root_eq fun n mem p node sound => reading n mem node sound.parsed
  have entries_eq : (records.map fun r => (r.found.key, r.found.value)) = entries := by
    have firsts := congrArg (List.map Prod.fst) records_eq
    simpa [Function.comp_def] using firsts
  have level_eq : node.level.toNat = t.root.level := by
    obtain ⟨_, -, top_eq, -⟩ := build_eq_ok built
    obtain ⟨_, _, -, -, same⟩ := buildNode_eq_ok top_eq
    rw [sound.carries.level_eq, same]
  have spread := spread_of_grown _ grown
  rw [entries_eq] at spread
  refine ⟨⟨t.root.address, node⟩, blocks, reads_top, is_root, ?_, spread, distinct⟩
  apply UInt16.le_iff_toNat_le.mpr
  dsimp only
  omega

/-- Every tree that is built has the shape that its draft asks for, and a walk of its nodes gives
back the entries that it was built from, in the order given. -/
theorem built_tree_walks (built : d.build entries = .ok t)
    (small : d.nodeSize ≤ NodeDraft.largestNode)
    (room : d.firstAddress.toNat + t.nodes.length ≤ UInt64.size) :
    (∃ top f, Node.parse d.order t.root.bytes = .ok top ∧ top.footer = some f ∧
      Counted entries t f ∧ ∀ i n, t.nodes[i]? = some n → ∃ node,
        Shaped d t top.entrySizes i n node) ∧
    ∀ (xid : TransactionId) (maxDepth : UInt16), t.root.level ≤ maxDepth.toNat →
      ∀ (ρ : Type) (visit : Bytes → Bytes → Session ρ Unit) (log : List Reference) (own : ρ),
        ∃ log',
          (Navigator.walkWith ⟨(Table.holding d.order t).source, maxDepth⟩ (t.rootRef xid)
              visit).perform (log, own)
            = (((visitAll visit entries).perform own).1.map fun _ => entries.length,
                (log', ((visitAll visit entries).perform own).2)) := by
  have few : t.nodes.length ≤ UInt64.size := by omega
  refine ⟨shaped_of_build built small room, fun xid maxDepth deep ρ visit log own => ?_⟩
  obtain ⟨top, blocks, tree⟩ := spread_of_build built small few xid deep
    fun n mem node parsed => read_holding built few xid mem parsed
  obtain ⟨same, -, kept⟩ := (Navigator.walkWith_still
    ⟨(Table.holding d.order t).source, maxDepth⟩ (fun _ => Table.yields_source _ _) (t.rootRef xid)
    visit).agree (log, own) own ⟨trivial, rfl⟩ trivial
  rw [Navigator.walk_spread tree, perform_then_pure] at same kept
  exact ⟨_, Prod.ext same (Prod.ext rfl kept)⟩

/-- Entries whose keys descend, in two leaves, come back as they were given. -/
theorem built_tree_walks_descending :
    ∃ t, (twoEach ⟨8, 8⟩).build [(wordBytes .big 9, wordBytes .big 90),
        (wordBytes .big 7, wordBytes .big 70), (wordBytes .big 5, wordBytes .big 50)] = .ok t ∧
      (∃ top f, Node.parse .big t.root.bytes = .ok top ∧ top.footer = some f ∧
        f.keyCount.toNat = 3) ∧
      ∃ log, (Navigator.walkWith ⟨(Table.holding .big t).source, standardDepth⟩ (t.rootRef 1)
          collect).perform ([], [])
        = (.ok 3, (log, [(wordBytes .big 9, wordBytes .big 90),
            (wordBytes .big 7, wordBytes .big 70), (wordBytes .big 5, wordBytes .big 50)])) := by
  obtain ⟨t, built, few⟩ := twoEach_three ⟨8, 8⟩ (by decide)
    (a := (wordBytes .big 9, wordBytes .big 90))
    (b := (wordBytes .big 7, wordBytes .big 70)) (c := (wordBytes .big 5, wordBytes .big 50))
    (by simp [size_wordBytes])
  have limit : nodeLimit = 65536 := rfl
  have words : UInt64.size = 18446744073709551616 := rfl
  have first : (twoEach ⟨8, 8⟩).firstAddress.toNat = 1 := rfl
  have level_eq : t.root.level = 1 := by
    obtain ⟨wide, -, top_eq, -⟩ := build_eq_ok built
    obtain ⟨_, _, -, -, same⟩ := buildNode_eq_ok top_eq
    rw [same, plan_three wide rfl]
  have deep : t.root.level ≤ standardDepth.toNat := by
    rw [level_eq]
    decide
  obtain ⟨⟨top, f, parsed, footer_eq, counted, -⟩, walks⟩ :=
    built_tree_walks built (by decide) (by omega)
  obtain ⟨log, walked⟩ := walks 1 standardDepth deep _ collect [] []
  rw [visitAll_collect] at walked
  exact ⟨t, built, ⟨top, f, parsed, footer_eq, counted.keyCount_eq (by simp [words])⟩, log, walked⟩

end TreeDraft

end ObjectStore
