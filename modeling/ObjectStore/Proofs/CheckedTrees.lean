import ObjectStore.Proofs.CheckedSearches
import ObjectStore.Proofs.Descents

/-
Searches and walks of whole trees on a machine, over whatever source hands out decoded nodes. A
walk adds up in each node what was counted below it; it enters no block twice, so the number of
blocks bounds every sum.
-/
namespace ObjectStore

open ObjectStore.Tree

namespace Checked

section

variable {m : Type → Type} [Monad m] [MonadExceptOf StoreError m] [MonadLiftT Machine m]

def decodedAt (block : BlockAddress) (x : Decoding α) : m α := do
  let result ← x.run
  ObjectStore.decodedAt block result

variable {τ : Type} {order : KeyOrder τ}

def readChild (nav : Navigator m) (root : Reference) (sizes : Option EntrySizes)
    (parent : Loaded) (index : Nat) : m (Reference × Loaded) := do
  let oid ← decodedAt parent.address (child parent.node sizes index)
  let reference := root.sibling oid
  return (reference, ← nav.source reference)

def step (nav : Navigator m) (trunk : Trunk) (path : List BlockAddress) (parent : Loaded)
    (index : Nat) : m Loaded := do
  let (reference, child) ← readChild nav trunk.root trunk.sizes parent index
  if path.contains child.address then throw (.treeTooDeep trunk.address nav.maxDepth)
  match childFault? reference parent child with
  | some fault => throw fault
  | none => return child

def locateIn (c : Comparer order) (trunk : Trunk) (target : τ) (how : Match) (here : Loaded) :
    m Nat := do
  match ← decodedAt here.address (locate c here.node trunk.sizes target how) with
  | some index => return index
  | none => throw (.keyNotFound s!"{order.describe target} in tree {trunk.root.text}")

def recordAt (trunk : Trunk) (here : Loaded) (index : Nat) : m (Bytes × Bytes) := do
  let key ← decodedAt here.address (key here.node trunk.sizes index)
  let value ← decodedAt here.address (value here.node trunk.sizes index)
  return (key, value)

def findBelow (nav : Navigator m) (c : Comparer order) (trunk : Trunk) (target : τ)
    (how : Match) : Nat → List BlockAddress → Bool → Loaded → m Found
  | 0, _, rightmost, here => do
      let leafMatch := if how = .closestLower ∧ rightmost = false then .floor else how
      let index ← locateIn c trunk target leafMatch here
      let (key, value) ← recordAt trunk here index
      return ⟨key, value, index, here.address⟩
  | level + 1, path, rightmost, here => do
      let index ← locateIn c trunk target .floor here
      let next ← Machine.add 32 index 1
      let child ← step nav trunk path here index
      findBelow nav c trunk target how level (child.address :: path)
        (rightmost && next == here.node.keyCount) child

def find (nav : Navigator m) (c : Comparer order) (root : Reference) (target : τ)
    (how : Match) : m Found := do
  let top ← nav.rootNode root
  findBelow nav c (Navigator.trunkOf root top) target how top.node.level.toNat [top.address] true
    top

def walkBelow (nav : Navigator m) (trunk : Trunk) (visit : Bytes → Bytes → m Unit) :
    Nat → List BlockAddress → Loaded → List BlockAddress → m Navigator.Progress
  | 0, _, here, entered => do
      let p ← Navigator.enter here ⟨entered, 0⟩
      (List.range here.node.keyCount).foldlM (fun p index => do
        let (key, value) ← recordAt trunk here index
        visit key value
        let count ← Machine.add 64 p.count 1
        return { p with count := count }) p
  | level + 1, path, here, entered => do
      let p ← Navigator.enter here ⟨entered, 0⟩
      (List.range here.node.keyCount).foldlM (fun p index => do
        let child ← step nav trunk (here.address :: path) here index
        let below ← walkBelow nav trunk visit level (here.address :: path) child p.entered
        let count ← Machine.add 64 p.count below.count
        return ⟨below.entered, count⟩) p

def walk (nav : Navigator m) (root : Reference) (visit : Bytes → Bytes → m Unit) : m Nat := do
  let top ← nav.rootNode root
  let p ← walkBelow nav (Navigator.trunkOf root top) visit top.node.level.toNat [] top []
  return p.count

end

variable {m' m : Type → Type} [Monad m'] [MonadExceptOf StoreError m'] [MonadLiftT Machine m']
  [Monad m] [MonadExceptOf StoreError m]

theorem decodedAt_tracks (F : Tracking StoreError m' m) (block : BlockAddress)
    {x' : Decoding α} {x : Except DecodeError α} (runs : Runs x' x) :
    F.Tracks (decodedAt block x') (ObjectStore.decodedAt block x) fun a => x = .ok a := by
  refine F.carried runs ?_
  cases x with
  | ok a => exact F.done rfl
  | error e => exact F.refused _

structure Feeds (F : Tracking StoreError m' m) (nav' : Navigator m') (nav : Navigator m)
    (root : Reference) (P : Loaded → Prop) : Prop where
  depth_eq : nav'.maxDepth = nav.maxDepth
  source : ∀ oid, F.Tracks (nav'.source (root.sibling oid)) (nav.source (root.sibling oid)) P
  decoded : ∀ loaded, P loaded → loaded.node.Decoded

variable {τ : Type} {order : KeyOrder τ} {F : Tracking StoreError m' m} {nav' : Navigator m'}
  {nav : Navigator m} {root : Reference} {P : Loaded → Prop}

theorem rootNode_tracks (feeds : Feeds F nav' nav root P) :
    F.Tracks (nav'.rootNode root) (nav.rootNode root) P := by
  have source := feeds.source root.oid
  rw [root.sibling_self] at source
  unfold Navigator.rootNode
  rw [feeds.depth_eq]
  refine F.bind source fun top known => ?_
  refine F.checked fun _ => ?_
  exact F.checked fun _ => F.done known

theorem step_tracks (feeds : Feeds F nav' nav root P) {trunk : Trunk} (root_eq : trunk.root = root)
    (path : List BlockAddress) {parent : Loaded} (known : P parent) (index : Nat) :
    F.Tracks (step nav' trunk path parent index) (nav.step trunk path parent index) P := by
  have reading : F.Tracks (readChild nav' trunk.root trunk.sizes parent index)
      (nav.readChild trunk.root trunk.sizes parent index) fun pair => P pair.2 := by
    rw [root_eq]
    have pointer := child_runs (feeds.decoded parent known) trunk.sizes index
    refine F.bind (decodedAt_tracks F parent.address pointer) fun oid _ => ?_
    exact F.bind (feeds.source oid) fun loaded held => F.done held
  unfold step Navigator.step
  rw [feeds.depth_eq]
  refine F.bind reading fun (reference, child) held => ?_
  refine F.checked fun _ => ?_
  cases childFault? reference parent child with
  | some fault => exact F.refused fault
  | none => exact F.done held

theorem locateIn_tracks (F : Tracking StoreError m' m) (c : Comparer order) (trunk : Trunk)
    (target : τ) (how : Match) {here : Loaded} (decoded : here.node.Decoded) :
    F.Tracks (locateIn c trunk target how here) (Navigator.locateIn trunk order target how here)
      fun index => index < here.node.keyCount := by
  have located := locate_runs c decoded trunk.sizes target how
  refine F.bind (decodedAt_tracks F here.address located) fun found known => ?_
  cases found with
  | some index => exact F.done (Node.locate_eq_some known).1
  | none => exact F.refused _

theorem recordAt_tracks (F : Tracking StoreError m' m) (trunk : Trunk) {here : Loaded}
    (decoded : here.node.Decoded) (index : Nat) :
    F.Tracks (recordAt trunk here index) (Navigator.recordAt trunk here index) fun _ => True := by
  have key := decodedAt_tracks F here.address (key_runs decoded trunk.sizes index)
  have value := decodedAt_tracks F here.address (value_runs decoded trunk.sizes index)
  exact F.bind key fun _ _ => F.bind value fun _ _ => F.done trivial

theorem findBelow_tracks (feeds : Feeds F nav' nav root P) (c : Comparer order) {trunk : Trunk}
    (root_eq : trunk.root = root) (target : τ) (how : Match) (level : Nat)
    (path : List BlockAddress) (rightmost : Bool) {here : Loaded} (known : P here) :
    F.Tracks (findBelow nav' c trunk target how level path rightmost here)
      (nav.findBelow trunk order target how level path rightmost here) fun _ => True := by
  have decoded := feeds.decoded here known
  induction level generalizing path rightmost here with
  | zero =>
    refine F.bind (locateIn_tracks F c trunk target _ decoded) fun index _ => ?_
    refine F.bind (recordAt_tracks F trunk decoded index) fun (key, value) _ => ?_
    exact F.done trivial
  | succ level ih =>
    have count : here.node.keyCount < 2 ^ 32 := here.node.header.keyCount.toNat_lt
    refine F.bind (locateIn_tracks F c trunk target .floor decoded) fun index inside => ?_
    refine F.carried (Machine.add_eq (by omega)) ?_
    refine F.bind (step_tracks feeds root_eq path known index) fun child held => ?_
    exact ih _ _ held (feeds.decoded child held)

/-- A search of a tree performs no operation that fails. -/
theorem find_tracks (feeds : Feeds F nav' nav root P) (c : Comparer order) (target : τ)
    (how : Match) :
    F.Tracks (find nav' c root target how) (nav.find order root target how) fun _ => True := by
  refine F.bind (rootNode_tracks feeds) fun top known => ?_
  exact findBelow_tracks feeds c rfl target how _ _ _ known

def after (count : Nat) (p : Navigator.Progress) : Navigator.Progress :=
  ⟨p.entered, count + p.count⟩

/-- What a walk may have done when it comes from some blocks: nothing entered twice, nothing that
the source does not have, and no more than `limit` records in each block that is new. -/
structure Progressed (blocks : List BlockAddress) (limit : Nat) (before : List BlockAddress)
    (p : Navigator.Progress) : Prop where
  nodup : p.entered.Nodup
  known : p.entered ⊆ blocks
  count_le : p.count + limit * before.length ≤ limit * p.entered.length

theorem Progressed.count_lt {blocks before : List BlockAddress} {limit : Nat}
    {p : Navigator.Progress} (progressed : Progressed blocks limit before p)
    (fits : limit * blocks.length < 2 ^ 64) : p.count < 2 ^ 64 := by
  have few : limit * p.entered.length ≤ limit * blocks.length :=
    Nat.mul_le_mul_left limit (progressed.nodup.length_le_of_subset progressed.known)
  have := progressed.count_le
  omega

theorem Progressed.trans {blocks before : List BlockAddress} {limit : Nat}
    {p q : Navigator.Progress} (first : Progressed blocks limit before p)
    (next : Progressed blocks limit p.entered q) :
    Progressed blocks limit before (after p.count q) where
  nodup := next.nodup
  known := next.known
  count_le := by
    have := first.count_le
    have := next.count_le
    change p.count + q.count + _ ≤ limit * q.entered.length
    omega

theorem enter_tracks (F : Tracking StoreError m' m) {blocks entered : List BlockAddress}
    (nodup : entered.Nodup) (known : entered ⊆ blocks) {here : Loaded}
    (listed : here.address ∈ blocks) (limit : Nat) :
    F.Tracks (Navigator.enter here ⟨entered, 0⟩) (Navigator.enter here ⟨entered, 0⟩) fun p =>
      p = ⟨here.address :: entered, 0⟩ ∧ Progressed blocks limit entered p := by
  refine F.checked fun new => F.done ⟨rfl, ?_, ?_, ?_⟩
  · exact List.nodup_cons.mpr ⟨fun met => new (List.contains_iff_mem.mpr met), nodup⟩
  · exact List.cons_subset.mpr ⟨listed, known⟩
  · change 0 + limit * entered.length ≤ limit * (entered.length + 1)
    rw [Nat.zero_add]
    exact Nat.mul_le_mul_left limit (Nat.le_succ _)

section

variable [LawfulMonad m]

omit [MonadExceptOf StoreError m] in
theorem foldlM_after {f : Navigator.Progress → Nat → m Navigator.Progress} {count : Nat}
    (each : ∀ p i, f (after count p) i = after count <$> f p i) (l : List Nat)
    (p : Navigator.Progress) : l.foldlM f (after count p) = after count <$> l.foldlM f p := by
  induction l generalizing p with
  | nil => simp
  | cons i l ih => simp only [List.foldlM_cons, each, map_eq_pure_bind, bind_assoc, pure_bind, ih]

theorem enter_after (F : Tracking StoreError m' m) (here : Loaded) (count : Nat)
    (p : Navigator.Progress) :
    (Navigator.enter here (after count p) : m _) = after count <$> Navigator.enter here p := by
  unfold Navigator.enter after
  by_cases met : p.entered.contains here.address = true
  · simp only [if_pos met, map_eq_pure_bind, F.stops]
  · simp only [if_neg met, map_eq_pure_bind, pure_bind]

/-- What a walk counts below a node does not depend on what was counted before. -/
theorem walkBelow_after (F : Tracking StoreError m' m) (nav : Navigator m) (trunk : Trunk)
    (visit : Bytes → Bytes → m Unit) (level : Nat) (path : List BlockAddress) (here : Loaded)
    (count : Nat) (p : Navigator.Progress) :
    nav.walkBelow trunk visit level path here (after count p)
      = after count <$> nav.walkBelow trunk visit level path here p := by
  induction level generalizing path here p with
  | zero =>
    unfold Navigator.walkBelow
    rw [enter_after F]
    simp only [map_eq_pure_bind, bind_assoc, pure_bind]
    congr 1
    funext q
    rw [foldlM_after, map_eq_pure_bind]
    intro p index
    simp only [map_eq_pure_bind, bind_assoc, pure_bind, after, Nat.add_assoc]
  | succ level ih =>
    unfold Navigator.walkBelow
    rw [enter_after F]
    simp only [map_eq_pure_bind, bind_assoc, pure_bind]
    congr 1
    funext q
    rw [foldlM_after, map_eq_pure_bind]
    intro p index
    simp only [ih, map_eq_pure_bind, bind_assoc]

variable {visit' : Bytes → Bytes → m' Unit} {visit : Bytes → Bytes → m Unit}
  {blocks : List BlockAddress} {limit : Nat}

theorem walkBelow_tracks (feeds : Feeds F nav' nav root P)
    (visits : ∀ key value, F.Tracks (visit' key value) (visit key value) fun _ => True)
    (listed : ∀ loaded, P loaded → loaded.address ∈ blocks)
    (few : ∀ loaded, P loaded → loaded.node.keyCount ≤ limit)
    (fits : limit * blocks.length < 2 ^ 64) {trunk : Trunk} (root_eq : trunk.root = root)
    (level : Nat) (path : List BlockAddress) {here : Loaded} (known : P here)
    {entered : List BlockAddress} (nodup : entered.Nodup) (inside : entered ⊆ blocks) :
    F.Tracks (walkBelow nav' trunk visit' level path here entered)
      (nav.walkBelow trunk visit level path here ⟨entered, 0⟩)
      (Progressed blocks limit entered) := by
  induction level generalizing path here entered with
  | zero =>
    have decoded := feeds.decoded here known
    have count : here.node.keyCount < 2 ^ 32 := here.node.header.keyCount.toNat_lt
    have entering := enter_tracks F nodup inside (listed here known) limit
    refine F.bind entering fun p ⟨start, progressed⟩ => ?_
    refine F.weaken (F.foldlM (fun i q => q = ⟨here.address :: entered, i⟩) ?_ start) ?_
    · intro i below q counted
      rw [List.length_range] at below
      refine F.bind (recordAt_tracks F trunk decoded _) fun (key, value) _ => ?_
      refine F.bind (visits key value) fun _ _ => ?_
      rw [counted]
      exact F.carried (Machine.add_eq (by dsimp only; omega)) (F.done rfl)
    · intro q done
      rw [List.length_range] at done
      rw [start] at progressed
      rw [done]
      refine ⟨progressed.nodup, progressed.known, ?_⟩
      change here.node.keyCount + limit * entered.length ≤ limit * (entered.length + 1)
      have := few here known
      rw [Nat.mul_succ]
      omega
  | succ level ih =>
    have entering := enter_tracks F nodup inside (listed here known) limit
    refine F.bind entering fun p ⟨_, progressed⟩ => ?_
    refine F.foldlM (fun _ => Progressed blocks limit entered) ?_ progressed
    intro i _ q so_far
    refine F.bind (step_tracks feeds root_eq (here.address :: path) known _) fun child held => ?_
    -- The sum of the machine is the count that the plain walk goes on with.
    have apart := walkBelow_after F nav trunk visit level (here.address :: path) child q.count
      ⟨q.entered, 0⟩
    rw [map_eq_pure_bind] at apart
    change F.Tracks _ (nav.walkBelow trunk visit level (here.address :: path) child
      (after q.count ⟨q.entered, 0⟩)) _
    rw [apart]
    refine F.bind (ih _ held so_far.nodup so_far.known) fun below next => ?_
    have both := so_far.trans next
    exact F.carried (Machine.add_eq (both.count_lt fits)) (F.done both)

/-- A walk of a tree performs no operation that fails. -/
theorem walk_tracks (feeds : Feeds F nav' nav root P)
    (visits : ∀ key value, F.Tracks (visit' key value) (visit key value) fun _ => True)
    (listed : ∀ loaded, P loaded → loaded.address ∈ blocks)
    (few : ∀ loaded, P loaded → loaded.node.keyCount ≤ limit)
    (fits : limit * blocks.length < 2 ^ 64) :
    F.Tracks (walk nav' root visit') (nav.walk root visit) fun _ => True := by
  refine F.bind (rootNode_tracks feeds) fun top known => ?_
  have same_root : (Navigator.trunkOf root top).root = root := rfl
  have walked := walkBelow_tracks feeds visits listed few fits same_root top.node.level.toNat []
    known List.nodup_nil (List.nil_subset _)
  exact F.bind walked fun p _ => F.done trivial

end

end Checked

end ObjectStore
