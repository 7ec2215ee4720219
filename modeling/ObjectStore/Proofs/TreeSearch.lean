import ObjectStore.Proofs.BuiltTree
import ObjectStore.Proofs.Search
import ObjectStore.Tree.Table

/-
Searches in trees with keys of one word and with keys that are versions, and trees that are built
and then held in memory, in which they can be watched.
-/
namespace ObjectStore

open Session

namespace Tree

def Table.ofTree (e : ByteOrder) (t : BuiltTree) : Table :=
  ⟨e, t.nodes.map fun n => (n.address, n.bytes), []⟩

def Table.navigator (table : Table) : Navigator (Session (List Reference)) :=
  ⟨table.source, standardDepth⟩

theorem Table.answers_of_read {table : Table} {reference : Reference} {loaded : Loaded}
    (read : table.read reference = .ok loaded) :
    Navigator.Answers (fun _ => True) table.navigator reference loaded := by
  intro s hs
  refine ⟨trivial, ?_⟩
  rw [show table.navigator.source = table.source from rfl, Table.source, perform_bind]
  change (Session.perform (ofExcept (table.read reference)) _).1 = _
  rw [read]
  rfl

end Tree

open ObjectStore.Tree

namespace TreeDraft

variable {d : TreeDraft} {t : BuiltTree}

/-- Blocks in memory answer for every node of the tree that was built. -/
theorem ofTree_answers {entries : List Entry} (built : d.build entries = .ok t)
    (physical : d.storage = .physical) (few : t.nodes.length ≤ nodeLimit) {n : BuiltNode}
    (mem : n ∈ t.nodes) {p : PlannedNode} {node : Node} (sound : Sound d p n node) :
    Navigator.Answers (fun _ => True) (Table.ofTree d.order t).navigator (.physical n.oid)
      ⟨n.address, node⟩ := by
  have same : n.oid = n.address := by
    rw [sound.oid_eq, sound.address_eq, oidOf, physical]
  have stored : (Table.ofTree d.order t).blocks.lookup n.address = some n.bytes := by
    refine lookup_of_mem ?_ (List.mem_map_of_mem mem)
    rw [Table.ofTree, List.map_map]
    exact addresses_nodup built (Nat.le_trans few (by decide))
  apply Table.answers_of_read
  rw [Table.read, Table.addressOf, same]
  dsimp only
  rw [stored]
  dsimp only
  rw [show (Table.ofTree d.order t).order = d.order from rfl, sound.parsed]
  rfl

/-- A physical tree is found with all its records in memory. -/
theorem ofTree_grown {τ : Type} {order : KeyOrder τ} (view : KeyView order)
    (pairs : List (Entry × τ)) (built : d.build (pairs.map Prod.fst) = .ok t)
    (physical : d.storage = .physical) (small : d.nodeSize ≤ NodeDraft.largestNode)
    (few : t.nodes.length ≤ nodeLimit)
    (decodes : ∀ pair ∈ pairs, view.decode d.order pair.1.1 = .ok pair.2)
    (ascending : view.Ascending (pairs.map Prod.snd)) :
    ∃ top records blocks,
      GrownTree ((Table.ofTree d.order t).navigator.Answers fun _ => True) view
        (.physical t.root.oid) standardDepth top records blocks ∧
      records.map (fun r => (((r.found.key, r.found.value) : Entry), r.key)) = pairs :=
  build_grown built small few decodes ascending rfl
    (fun _ mem _ _ sound => ofTree_answers built physical few mem sound) (UInt16.le_refl _)

theorem plan_three (wide : 2 ≤ d.fanout) (pair : d.fanout = 2) (a b c : Entry) :
    d.plan wide [a, b, c] = ([⟨0, 0, false, [a, b]⟩, ⟨1, 0, false, [c]⟩],
      ⟨2, 1, true,
        [(a.1, wordBytes d.order (d.oidOf 0)), (c.1, wordBytes d.order (d.oidOf 1))]⟩) := by
  simp [plan, leafGroups, chunks, pair, planFrom, planLevel, pointerTo]

end TreeDraft

namespace Tree

/-- In a tree with ascending keys, of words or of versions, a search agrees with a scan of all
records: it finds the same record, or nothing where the scan finds nothing. -/
theorem find_agrees_with_scan {σ : Type} (I : σ → Prop) (nav : Navigator (Session σ))
    (root : Reference) :
    (∀ (top : Loaded) (records : List (Record UInt64)) (blocks : List BlockAddress),
      GrownTree (nav.Answers I) wordKeys root nav.maxDepth top records blocks →
      ∀ (target : UInt64) (how : Match), Yields I (nav.find KeyOrder.word root target how)
        (answer KeyOrder.word root target (wordKeys.scan records target how))) ∧
    (∀ (top : Loaded) (records : List (Record VersionKey)) (blocks : List BlockAddress),
      GrownTree (nav.Answers I) versionKeys root nav.maxDepth top records blocks →
      ∀ (target : VersionKey) (how : Match), Yields I (nav.find VersionKey.order root target how)
        (answer VersionKey.order root target (versionKeys.scan records target how))) :=
  ⟨fun _ _ _ tree => Navigator.find_scans tree, fun _ _ _ tree => Navigator.find_scans tree⟩

/-- A scan for the key of the last entry finds that entry. -/
theorem KeyView.scan_of_last {τ : Type} {order : KeyOrder τ} (view : KeyView order)
    {records : List (Record τ)} {pairs : List (Entry × τ)} {entry : Entry} {key : τ}
    (records_eq : records.map (fun r => (((r.found.key, r.found.value) : Entry), r.key)) = pairs)
    (last : pairs.getLast? = some (entry, key)) (same : view.same key key = true) (how : Match) :
    ∃ r, view.scan records key how = some r ∧ r.found.value = entry.2 := by
  rw [← records_eq, List.getLast?_map] at last
  obtain ⟨r, at_end, pair_eq⟩ := Option.map_eq_some_iff.mp last
  have key_eq : r.key = key := congrArg Prod.snd pair_eq
  have value_eq : r.found.value = entry.2 := congrArg (fun pair => pair.1.2) pair_eq
  rw [← key_eq] at same
  have scanned := view.scan_last at_end same how
  rw [key_eq] at scanned
  exact ⟨r, scanned, value_eq⟩

def twoEach (sizes : EntrySizes) : TreeDraft :=
  { TreeDraft.blank .big 176 (.fixed sizes) with fanout := 2 }

theorem twoEach_node {sizes : EntrySizes} (narrow : sizes.key.toNat ≤ 16 ∧ sizes.value.toNat ≤ 16)
    (entries : List Entry) {p : PlannedNode} (few : p.entries.length ≤ 2) (low : p.level ≤ 1)
    (lengths : ∀ entry ∈ p.entries, entry.1.size = sizes.key.toNat ∧
      entry.2.size = (sizes.valueIn (p.level == 0)).toNat) :
    ∃ n, (twoEach sizes).buildNode entries p = .ok n := by
  have values : (sizes.valueIn (p.level == 0)).toNat ≤ 16 := by
    unfold EntrySizes.valueIn
    split
    · exact narrow.2
    · decide
  have head : NodeHeader.size = 56 := rfl
  have foot : Footer.size = 40 := rfl
  have block : (twoEach sizes).nodeSize = 176 := rfl
  have key_room := Nat.mul_le_mul few narrow.1
  have value_room := Nat.mul_le_mul few values
  have limit : NodeDraft.largestNode = 65536 := rfl
  exact TreeDraft.buildNode_fixed entries rfl (by omega) (by omega) lengths (by omega)

theorem twoEach_three (sizes : EntrySizes) (narrow : sizes.key.toNat ≤ 16 ∧ sizes.value.toNat ≤ 16)
    {a b c : Entry} (lengths : ∀ entry ∈ [a, b, c],
      entry.1.size = sizes.key.toNat ∧ entry.2.size = sizes.value.toNat) :
    ∃ t, (twoEach sizes).build [a, b, c] = .ok t ∧ t.nodes.length ≤ TreeDraft.nodeLimit := by
  have wide : 2 ≤ (twoEach sizes).fanout := Nat.le_refl 2
  have plan := (twoEach sizes).plan_three wide rfl a b c
  have first := (lengths a (by simp)).1
  have last := (lengths c (by simp)).1
  obtain ⟨t, built⟩ := TreeDraft.build_succeeds (d := twoEach sizes) wide [a, b, c] (by
    rw [plan]
    intro p mem
    simp only [List.cons_append, List.nil_append, List.mem_cons, List.not_mem_nil, or_false] at mem
    rcases mem with leaf | leaf | top
    · subst leaf
      exact twoEach_node narrow _ (Nat.le_refl 2) (Nat.zero_le 1) fun entry mem =>
        lengths entry (List.mem_append_left [c] mem)
    · subst leaf
      exact twoEach_node narrow _ (Nat.le_succ 1) (Nat.zero_le 1) fun entry mem =>
        lengths entry (List.mem_append_right [a, b] mem)
    · subst top
      refine twoEach_node narrow _ (Nat.le_refl 2) (Nat.le_refl 1) fun entry mem => ?_
      simp only [List.mem_cons, List.not_mem_nil, or_false] at mem
      rcases mem with left | right
      · rw [left]
        exact ⟨first, size_wordBytes _ _⟩
      · rw [right]
        exact ⟨last, size_wordBytes _ _⟩)
  obtain ⟨_, length_eq, -⟩ := TreeDraft.buildNode_of_build built
  rw [plan] at length_eq
  refine ⟨t, built, ?_⟩
  rw [length_eq]
  exact Nat.le_of_ble_eq_true rfl

/-- Of equal keys in two leaves, the one in the right leaf is found. -/
theorem find_agrees_with_scan_duplicates :
    (∃ (t : BuiltTree) (top : Loaded) (records : List (Record UInt64))
      (blocks : List BlockAddress),
      GrownTree ((Table.ofTree .big t).navigator.Answers fun _ => True) wordKeys
        (.physical t.root.oid) standardDepth top records blocks ∧
      ∃ r, Yields (fun _ => True)
        ((Table.ofTree .big t).navigator.find KeyOrder.word (.physical t.root.oid) 7 .exact)
        (.ok r) ∧ r.value = wordBytes .big 71) ∧
    (∃ (t : BuiltTree) (top : Loaded) (records : List (Record VersionKey))
      (blocks : List BlockAddress),
      GrownTree ((Table.ofTree .big t).navigator.Answers fun _ => True) versionKeys
        (.physical t.root.oid) standardDepth top records blocks ∧
      ∃ r, Yields (fun _ => True)
        ((Table.ofTree .big t).navigator.find VersionKey.order (.physical t.root.oid) ⟨7, 3⟩
          .versioned) (.ok r) ∧ r.value = Mapping.encode .big ⟨0, 8192, 71⟩) := by
  constructor
  · obtain ⟨t, built, few⟩ := twoEach_three ⟨8, 8⟩ (by decide)
      (a := (wordBytes .big 5, wordBytes .big 50)) (b := (wordBytes .big 7, wordBytes .big 70))
      (c := (wordBytes .big 7, wordBytes .big 71)) (by simp [size_wordBytes])
    obtain ⟨top, records, blocks, tree, records_eq⟩ := TreeDraft.ofTree_grown wordKeys
      [((wordBytes .big 5, wordBytes .big 50), 5),
        ((wordBytes .big 7, wordBytes .big 70), 7), ((wordBytes .big 7, wordBytes .big 71), 7)]
      built rfl (by decide) few (by simp [wordKeys, twoEach, TreeDraft.blank, read64_wordBytes])
      (by
        change List.Pairwise (fun a b : UInt64 => (compare a b).isLE = true) [5, 7, 7]
        decide)
    obtain ⟨r, scanned, value⟩ := wordKeys.scan_of_last records_eq rfl rfl .exact
    have found := (find_agrees_with_scan (fun _ => True) (Table.ofTree .big t).navigator
      (.physical t.root.oid)).1 top records blocks tree 7 .exact
    rw [scanned] at found
    exact ⟨t, top, records, blocks, tree, r.found, found, value⟩
  · obtain ⟨t, built, few⟩ := twoEach_three ⟨16, 16⟩ (by decide)
      (a := (VersionKey.encode .big ⟨5, 1⟩, Mapping.encode .big ⟨0, 8192, 50⟩))
      (b := (VersionKey.encode .big ⟨7, 3⟩, Mapping.encode .big ⟨0, 8192, 70⟩))
      (c := (VersionKey.encode .big ⟨7, 3⟩, Mapping.encode .big ⟨0, 8192, 71⟩))
      (by simp [VersionKey.size_encode, Mapping.size_encode])
    obtain ⟨top, records, blocks, tree, records_eq⟩ := TreeDraft.ofTree_grown
      versionKeys
      [((VersionKey.encode .big ⟨5, 1⟩, Mapping.encode .big ⟨0, 8192, 50⟩), ⟨5, 1⟩),
        ((VersionKey.encode .big ⟨7, 3⟩, Mapping.encode .big ⟨0, 8192, 70⟩), ⟨7, 3⟩),
        ((VersionKey.encode .big ⟨7, 3⟩, Mapping.encode .big ⟨0, 8192, 71⟩), ⟨7, 3⟩)]
      built rfl (by decide) few
      (by simp [versionKeys, twoEach, TreeDraft.blank, VersionKey.parse_encode])
      (by
        change List.Pairwise (fun a b : VersionKey => (VersionKey.compare a b).isLE = true)
          [⟨5, 1⟩, ⟨7, 3⟩, ⟨7, 3⟩]
        decide)
    obtain ⟨r, scanned, value⟩ := versionKeys.scan_of_last records_eq rfl rfl .versioned
    have found := (find_agrees_with_scan (fun _ => True) (Table.ofTree .big t).navigator
      (.physical t.root.oid)).2 top records blocks tree ⟨7, 3⟩ .versioned
    rw [scanned] at found
    exact ⟨t, top, records, blocks, tree, r.found, found, value⟩

end Tree

end ObjectStore
