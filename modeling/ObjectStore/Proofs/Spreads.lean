import Mathlib.Data.List.Forall2
import ObjectStore.Proofs.Descents
import ObjectStore.Proofs.Watched

/-
Trees whose blocks are all different, whatever their keys. There is one such tree at most below
a root, and a walk of it is a visit of its records in order.
-/
namespace ObjectStore.Tree

open Session

/-- What lies below one entry of an index node: the node that it points to, the records from left
to right, and the blocks of the nodes. -/
structure Bough where
  top : Loaded
  records : List (Bytes × Bytes)
  blocks : List BlockAddress

section

variable (read : Reference → Except StoreError Loaded) (root : Reference)
  (sizes : Option EntrySizes)

structure Bears (here : Loaded) (index : Nat) (record : Bytes × Bytes) : Prop where
  key_eq : here.node.key sizes index = .ok record.1
  value_eq : here.node.value sizes index = .ok record.2

/-- An entry of an index node one level above `level` that points to a node there. -/
structure Forks (here : Loaded) (level index : Nat) (top : Loaded) : Prop where
  pointer : ∃ oid, here.node.child sizes index = .ok oid ∧ read (root.sibling oid) = .ok top
  level_eq : top.node.level.toNat = level
  not_root : top.node.isRoot = false

/-- `here`, a node of the given level, has these records and these blocks below it. -/
def Spread : Nat → Loaded → List (Bytes × Bytes) → List BlockAddress → Prop
  | 0, here, records, blocks =>
      blocks = [here.address] ∧
        List.Forall₂ (Bears sizes here) (List.range here.node.keyCount) records
  | level + 1, here, records, blocks => ∃ boughs : List Bough,
      blocks = here.address :: boughs.flatMap Bough.blocks ∧
        records = boughs.flatMap Bough.records ∧
        List.Forall₂ (fun index bough => Forks read root sizes here level index bough.top ∧
          Spread level bough.top bough.records bough.blocks)
          (List.range here.node.keyCount) boughs

/-- What is reachable from `root` is a tree, in which no block is reached twice. -/
structure SpreadTree (maxDepth : UInt16) (top : Loaded) (records : List (Bytes × Bytes))
    (blocks : List BlockAddress) : Prop where
  reads_top : read root = .ok top
  is_root : top.node.isRoot = true
  shallow : top.node.level ≤ maxDepth
  spread : Spread read root top.node.entrySizes top.node.level.toNat top records blocks
  unshared : blocks.Nodup

end

def visitAll (visit : Bytes → Bytes → Session ρ Unit) : List (Bytes × Bytes) → Session ρ Unit
  | [] => pure ()
  | record :: records => visit record.1 record.2 >>= fun _ => visitAll visit records

theorem visitAll_append (visit : Bytes → Bytes → Session ρ Unit)
    (records later : List (Bytes × Bytes)) :
    visitAll visit (records ++ later) =
      visitAll visit records >>= fun _ => visitAll visit later := by
  induction records with
  | nil => simp [visitAll]
  | cons record records ih => simp [visitAll, ih]

def collect (key value : Bytes) : Session (List (Bytes × Bytes)) Unit :=
  Session.change (· ++ [(key, value)])

theorem visitAll_collect (records seen : List (Bytes × Bytes)) :
    (visitAll collect records).perform seen = (.ok (), seen ++ records) := by
  induction records generalizing seen with
  | nil =>
    rw [List.append_nil]
    rfl
  | cons record records ih =>
    have kept : (collect record.1 record.2).perform seen = (.ok (), seen ++ [record]) := rfl
    rw [visitAll, bind_of_ok kept, ih, List.append_assoc]
    rfl

section

variable {read : Reference → Except StoreError Loaded} {root : Reference}
  {sizes : Option EntrySizes}

theorem spread_head {level : Nat} {here : Loaded} {records : List (Bytes × Bytes)}
    {blocks : List BlockAddress} (spread : Spread read root sizes level here records blocks) :
    here.address ∈ blocks := by
  cases level with
  | zero => simp [spread.1]
  | succ level =>
    obtain ⟨boughs, rfl, -⟩ := spread
    simp

theorem bears_unique {here : Loaded} : Relator.RightUnique (Bears sizes here) := by
  intro index record other bears bears'
  have keys := bears.key_eq.symm.trans bears'.key_eq
  have values := bears.value_eq.symm.trans bears'.value_eq
  exact Prod.ext (Except.ok.inj keys) (Except.ok.inj values)

theorem forks_unique {here top other : Loaded} {level index : Nat}
    (forks : Forks read root sizes here level index top)
    (forks' : Forks read root sizes here level index other) : top = other := by
  obtain ⟨oid, pointer, reads⟩ := forks.pointer
  obtain ⟨oid', pointer', reads'⟩ := forks'.pointer
  rw [pointer] at pointer'
  cases pointer'
  rw [reads] at reads'
  exact Except.ok.inj reads'

/-- There are no two ways to read the same nodes as a tree. -/
theorem spread_unique :
    ∀ (level : Nat) {here : Loaded} {records others : List (Bytes × Bytes)}
      {blocks blocks' : List BlockAddress},
      Spread read root sizes level here records blocks →
      Spread read root sizes level here others blocks' → records = others ∧ blocks = blocks' := by
  intro level
  induction level with
  | zero =>
    rintro here records others _ _ ⟨rfl, bears⟩ ⟨rfl, bears'⟩
    exact ⟨Relator.RightUnique.forall₂ bears_unique bears bears', rfl⟩
  | succ level ih =>
    rintro here _ _ _ _ ⟨boughs, rfl, rfl, below⟩ ⟨boughs', rfl, rfl, below'⟩
    have same : boughs = boughs' := by
      refine Relator.RightUnique.forall₂ ?_ below below'
      rintro index ⟨top, records, blocks⟩ ⟨top', records', blocks'⟩ ⟨forks, spread⟩
        ⟨forks', spread'⟩
      have top_eq := forks_unique forks forks'
      simp only at top_eq
      subst top_eq
      obtain ⟨rfl, rfl⟩ := ih spread spread'
      rfl
    subst same
    exact ⟨rfl, rfl⟩

theorem SpreadTree.unique {maxDepth : UInt16} {top top' : Loaded}
    {records others : List (Bytes × Bytes)} {blocks blocks' : List BlockAddress}
    (tree : SpreadTree read root maxDepth top records blocks)
    (tree' : SpreadTree read root maxDepth top' others blocks') :
    records = others ∧ blocks = blocks' := by
  have same := Except.ok.inj (tree.reads_top.symm.trans tree'.reads_top)
  subst same
  exact spread_unique _ tree.spread tree'.spread

end

namespace Navigator

def still (read : Reference → Except StoreError Loaded) (maxDepth : UInt16) :
    Navigator (Session ρ) :=
  ⟨fun reference => ofExcept (read reference), maxDepth⟩

def Progress.past (p : Progress) (records : List (Bytes × Bytes)) (blocks : List BlockAddress) :
    Progress :=
  ⟨blocks.reverse ++ p.entered, p.count + records.length⟩

variable {ρ : Type} {read : Reference → Except StoreError Loaded} {maxDepth : UInt16}
  {trunk : Trunk} {visit : Bytes → Bytes → Session ρ Unit}

theorem recordAt_of_bears {here : Loaded} {index : Nat} {record : Bytes × Bytes}
    (bears : Bears trunk.sizes here index record) :
    (recordAt trunk here index : Session ρ (Bytes × Bytes)) = pure record := by
  simp [recordAt, bears.key_eq, bears.value_eq, decodedAt]

theorem step_of_forks {path : List BlockAddress} {here top : Loaded} {level index : Nat}
    (level_eq : here.node.level.toNat = level + 1)
    (forks : Forks read trunk.root trunk.sizes here level index top) (new : top.address ∉ path) :
    (still read maxDepth).step trunk path here index = (pure top : Session ρ Loaded) := by
  obtain ⟨oid, pointer, reads⟩ := forks.pointer
  have sound : childFault? (trunk.root.sibling oid) here top = none :=
    no_childFault level_eq forks.level_eq forks.not_root
  have read_eq : (ofExcept (read (trunk.root.sibling oid)) : Session ρ Loaded) = pure top := by
    rw [reads]
    rfl
  simp [step, readChild, still, pointer, decodedAt, read_eq, new, sound]

theorem enter_new {here : Loaded} {p : Progress} (new : here.address ∉ p.entered) :
    (enter here p : Session ρ Progress) = pure { p with entered := here.address :: p.entered } := by
  simp [enter, new]

/-- The walk of a leaf visits its records. -/
theorem fold_records (visit : Bytes → Bytes → Session ρ Unit) {here : Loaded} {l : List Nat}
    {records : List (Bytes × Bytes)} (bears : List.Forall₂ (Bears trunk.sizes here) l records)
    (p : Progress) :
    l.foldlM (fun p index => do
        let (key, value) ← recordAt trunk here index
        visit key value
        return { p with count := p.count + 1 }) p
      = visitAll visit records >>= fun _ => pure (p.past records []) := by
  induction bears generalizing p with
  | nil => simp [visitAll, Progress.past]
  | cons first later ih =>
    rw [List.foldlM_cons, recordAt_of_bears first]
    simp only [pure_bind, bind_assoc, ih]
    simp [visitAll, Progress.past, Nat.add_assoc, Nat.add_comm 1]

/-- The walk of the entries of an index node visits the records below them, if the walk of each
does. What has been entered before them must not lie below them. -/
theorem fold_boughs (visit : Bytes → Bytes → Session ρ Unit) {path : List BlockAddress}
    {f : Progress → Nat → Session ρ Progress} {l : List Nat} {boughs : List Bough}
    (each : List.Forall₂ (fun index bough => ∀ p : Progress, path ⊆ p.entered →
      (∀ a ∈ p.entered, a ∉ bough.blocks) → bough.blocks.Nodup → f p index
        = visitAll visit bough.records >>= fun _ => pure (p.past bough.records bough.blocks))
      l boughs)
    (nodup : (boughs.flatMap Bough.blocks).Nodup) (p : Progress) (entered : path ⊆ p.entered)
    (fresh : ∀ a ∈ p.entered, a ∉ boughs.flatMap Bough.blocks) :
    l.foldlM f p = visitAll visit (boughs.flatMap Bough.records) >>= fun _ =>
      pure (p.past (boughs.flatMap Bough.records) (boughs.flatMap Bough.blocks)) := by
  induction each generalizing p with
  | nil => simp [visitAll, Progress.past]
  | @cons index bough l boughs first _ ih =>
    rw [List.flatMap_cons] at nodup fresh
    obtain ⟨nodupHere, nodupLater, apart⟩ := List.nodup_append.mp nodup
    have here := first p entered
      (fun a mem inside => fresh a mem (List.mem_append_left _ inside)) nodupHere
    have later := ih nodupLater (p.past bough.records bough.blocks)
      (fun a mem => List.mem_append_right _ (entered mem)) (by
        intro a mem inside
        rcases List.mem_append.mp mem with before | earlier
        · exact apart a (List.mem_reverse.mp before) a inside rfl
        · exact fresh a earlier (List.mem_append_right _ inside))
    rw [List.foldlM_cons, here]
    simp only [bind_assoc, pure_bind, later]
    simp [visitAll_append, Progress.past, Nat.add_assoc]

/-- A walk of a tree is a visit of its records. -/
theorem walkBelow_spread :
    ∀ (level : Nat) {path : List BlockAddress} {here : Loaded} {p : Progress}
      {records : List (Bytes × Bytes)} {blocks : List BlockAddress},
      Spread read trunk.root trunk.sizes level here records blocks →
      here.node.level.toNat = level → blocks.Nodup → path ⊆ p.entered →
      (∀ a ∈ p.entered, a ∉ blocks) →
      (still read maxDepth).walkBelow trunk visit level path here p
        = visitAll visit records >>= fun _ => pure (p.past records blocks) := by
  intro level
  induction level with
  | zero =>
    intro path here p records blocks spread _ _ _ fresh
    have new : here.address ∉ p.entered := fun mem => fresh _ mem (spread_head spread)
    obtain ⟨rfl, bears⟩ := spread
    rw [walkBelow, enter_new new, pure_bind, fold_records visit bears]
    simp [Progress.past]
  | succ level ih =>
    intro path here p records blocks spread level_eq nodup entered fresh
    have new : here.address ∉ p.entered := fun mem => fresh _ mem (spread_head spread)
    obtain ⟨boughs, rfl, rfl, below⟩ := spread
    obtain ⟨notBelow, nodupBelow⟩ := List.nodup_cons.mp nodup
    rw [walkBelow, enter_new new, pure_bind, fold_boughs visit (below.imp ?_) nodupBelow
      { p with entered := here.address :: p.entered } (List.cons_subset_cons _ entered) ?_]
    · simp [Progress.past]
    · rintro index bough ⟨forks, spreadBelow⟩ p' entered' fresh' nodup'
      have topNew : bough.top.address ∉ here.address :: path :=
        fun mem => fresh' _ (entered' mem) (spread_head spreadBelow)
      rw [step_of_forks level_eq forks topNew, pure_bind]
      exact ih spreadBelow forks.level_eq nodup' entered' fresh'
    · intro a mem inside
      rcases List.mem_cons.mp mem with same | before
      · exact notBelow (same ▸ inside)
      · exact fresh a before (List.mem_cons_of_mem _ inside)

theorem walk_spread {root : Reference} {top : Loaded} {records : List (Bytes × Bytes)}
    {blocks : List BlockAddress} (tree : SpreadTree read root maxDepth top records blocks) :
    (still read maxDepth).walk root visit
      = visitAll visit records >>= fun _ => pure records.length := by
  have start : (still read maxDepth).rootNode root = (pure top : Session ρ Loaded) := by
    have read_eq : (ofExcept (read root) : Session ρ Loaded) = pure top := by
      rw [tree.reads_top]
      rfl
    simp [rootNode, still, read_eq, tree.is_root, UInt16.not_lt.mpr tree.shallow]
  have whole : (still read maxDepth).walkBelow (trunkOf root top) visit
      top.node.level.toNat [] top ⟨[], 0⟩
        = visitAll visit records >>= fun _ => pure (Progress.past ⟨[], 0⟩ records blocks) :=
    walkBelow_spread _ tree.spread rfl tree.unshared (List.nil_subset _) (by simp)
  rw [walk, start, pure_bind, whole]
  simp [Progress.past]

/-- A source that answers as `read` does, and a visitor with a state of its own. -/
theorem walkWith_still {σ : Type} {I : σ → Prop} (nav : Navigator (Session σ))
    (answers : ∀ reference, Yields I (nav.source reference) (read reference)) (root : Reference)
    (visit : Bytes → Bytes → Session ρ Unit) :
    Simulates (fun _ => True) (fun s own => I s.1 ∧ s.2 = own) (nav.walkWith root visit)
      ((still read nav.maxDepth).walk root visit) := by
  have agree : nav.beside.Agrees (fun _ => True) (fun s own => I s.1 ∧ s.2 = own)
      (still read nav.maxDepth : Navigator (Session ρ)) := by
    refine ⟨rfl, fun reference => ⟨fun _ _ => trivial, ?_⟩⟩
    rintro ⟨s, own⟩ _ ⟨start, rfl⟩ -
    obtain ⟨kept, result⟩ := answers reference s start
    have known := perform_ofExcept (read reference) own
    exact ⟨result.trans (congrArg Prod.fst known).symm, kept, (congrArg Prod.snd known).symm⟩
  have visits : ∀ key value, Simulates (fun _ => True) (fun s own => I s.1 ∧ s.2 = own)
      (onRight (visit key value) : Session (σ × ρ) Unit) (visit key value) := by
    refine fun key value => ⟨fun _ _ => trivial, ?_⟩
    rintro ⟨s, own⟩ _ ⟨start, rfl⟩ -
    exact ⟨rfl, start, rfl⟩
  exact simulates_walk agree visits root

end Navigator

end ObjectStore.Tree
