import ObjectStore.Proofs.SearchTrails
import ObjectStore.Proofs.Spreads

/-
The round that a walk makes through whatever a source hands out: entry after entry, below each
pointer before the next one, until the entries are used up or something stops it. It enters no
block twice, so that it ends on every graph and calls its source at most once more than it
enters nodes.
-/
namespace ObjectStore.Tree

open Session

/-- An entry of a node that is still to be gone to, and the blocks on the way down to the node. -/
structure Stop where
  path : List BlockAddress
  here : Loaded
  index : Nat

def stopsAt (path : List BlockAddress) (here : Loaded) : List Stop :=
  (List.range here.node.keyCount).map fun index => ⟨path, here, index⟩

section

variable {ρ : Type} (limit : UInt16) (trunk : Trunk) (visit : Bytes → Bytes → Session ρ Unit)

/-- A walk that has entered these blocks and has these stops before it: what it asks of the source,
the nodes it enters and the records it calls its visitor on, all in order, and how it ends. The
entries of a node that is entered come before the stops that were left. -/
inductive Round : List BlockAddress → ρ → List Stop → List Ask → List Loaded →
    List (Bytes × Bytes) → Except StoreError Unit → ρ → Prop where
  | done {entered : List BlockAddress} {own : ρ} : Round entered own [] [] [] [] (.ok ()) own
  | record {entered path : List BlockAddress} {own next final : ρ} {leaf : Loaded} {index : Nat}
      {key value : Bytes} {stops : List Stop} {asks : List Ask} {nodes : List Loaded}
      {records : List (Bytes × Bytes)} {result : Except StoreError Unit}
      (is_leaf : leaf.node.isLeaf = true)
      (read : (Navigator.recordAt trunk leaf index : Except StoreError _) = .ok (key, value))
      (accepted : (visit key value).perform own = (.ok (), next))
      (rest : Round entered next stops asks nodes records result final) :
      Round entered own (⟨path, leaf, index⟩ :: stops) asks nodes ((key, value) :: records) result
        final
  | unreadable {entered path : List BlockAddress} {own : ρ} {leaf : Loaded} {index : Nat}
      {stops : List Stop} {e : StoreError} (is_leaf : leaf.node.isLeaf = true)
      (read : (Navigator.recordAt trunk leaf index : Except StoreError _) = .error e) :
      Round entered own (⟨path, leaf, index⟩ :: stops) [] [] [] (.error e) own
  | refused {entered path : List BlockAddress} {own final : ρ} {leaf : Loaded} {index : Nat}
      {key value : Bytes} {stops : List Stop} {e : StoreError} (is_leaf : leaf.node.isLeaf = true)
      (read : (Navigator.recordAt trunk leaf index : Except StoreError _) = .ok (key, value))
      (rejected : (visit key value).perform own = (.error e, final)) :
      Round entered own (⟨path, leaf, index⟩ :: stops) [] [] [(key, value)] (.error e) final
  | child {entered path : List BlockAddress} {own final : ρ} {here child : Loaded} {index : Nat}
      {stops : List Stop} {asks more : List Ask} {nodes : List Loaded}
      {records : List (Bytes × Bytes)} {result : Except StoreError Unit}
      (inner : here.node.isLeaf = false)
      (step : Stepped limit trunk path here index asks (.ok child))
      (new : child.address ∉ entered)
      (rest : Round (child.address :: entered) own (stopsAt (child.address :: path) child ++ stops)
        more nodes records result final) :
      Round entered own (⟨path, here, index⟩ :: stops) (asks ++ more) (child :: nodes) records
        result final
  | stopped {entered path : List BlockAddress} {own : ρ} {here : Loaded} {index : Nat}
      {stops : List Stop} {asks : List Ask} {e : StoreError} (inner : here.node.isLeaf = false)
      (step : Stepped limit trunk path here index asks (.error e)) :
      Round entered own (⟨path, here, index⟩ :: stops) asks [] [] (.error e) own
  | shared {entered path : List BlockAddress} {own : ρ} {here child : Loaded} {index : Nat}
      {stops : List Stop} {asks : List Ask} (inner : here.node.isLeaf = false)
      (step : Stepped limit trunk path here index asks (.ok child))
      (again : child.address ∈ entered) :
      Round entered own (⟨path, here, index⟩ :: stops) asks [] []
        (.error (.corrupt child.address "B-tree node reachable from two parents")) own

/-- A whole walk, which counts the records that its visitor has accepted. -/
inductive Walked (root : Reference) (own : ρ) : List Ask → List Loaded → List (Bytes × Bytes) →
    Except StoreError Nat → ρ → Prop where
  | refused {asks : List Ask} {e : StoreError} (start : Rooted limit root asks (.error e)) :
      Walked root own asks [] [] (.error e) own
  | round {asks more : List Ask} {top : Loaded} {nodes : List Loaded}
      {records : List (Bytes × Bytes)} {result : Except StoreError Unit} {final : ρ}
      (start : Rooted limit root asks (.ok top))
      (round : Round limit (Navigator.trunkOf root top) visit [top.address] own
        (stopsAt [top.address] top) more nodes records result final) :
      Walked root own (asks ++ more) (top :: nodes) records
        (result.map fun _ => records.length) final

variable {limit trunk visit}

/-- No block is entered that has been entered before. -/
theorem Round.distinct {entered : List BlockAddress} {own final : ρ} {stops : List Stop}
    {asks : List Ask} {nodes : List Loaded} {records : List (Bytes × Bytes)}
    {result : Except StoreError Unit}
    (round : Round limit trunk visit entered own stops asks nodes records result final) :
    (nodes.map Loaded.address).Nodup ∧ ∀ n ∈ nodes, n.address ∉ entered := by
  induction round with
  | done => simp
  | record is_leaf read accepted rest ih => exact ih
  | unreadable is_leaf read => simp
  | refused is_leaf read rejected => simp
  | stopped inner step => simp
  | shared inner step again => simp
  | child inner step new rest ih =>
    obtain ⟨distinct, apart⟩ := ih
    exact distinct_cons new distinct apart

/-- The source is asked for the nodes that are entered, and for one more at most. -/
theorem Round.length_le {entered : List BlockAddress} {own final : ρ} {stops : List Stop}
    {asks : List Ask} {nodes : List Loaded} {records : List (Bytes × Bytes)}
    {result : Except StoreError Unit}
    (round : Round limit trunk visit entered own stops asks nodes records result final) :
    asks.length ≤ nodes.length + 1 := by
  induction round with
  | done => simp
  | record is_leaf read accepted rest ih => exact ih
  | unreadable is_leaf read => simp
  | refused is_leaf read rejected => simp
  | stopped inner step => simpa using step.length_le
  | shared inner step again => simpa using step.length_le
  | child inner step new rest ih =>
    have one := step.length_le
    rw [List.length_append, List.length_cons]
    omega

theorem bears_of_recordAt {here : Loaded} {index : Nat} {record : Bytes × Bytes}
    (read : (Navigator.recordAt trunk here index : Except StoreError _) = .ok record) :
    Bears trunk.sizes here index record := by
  obtain ⟨key, key_eq, rest⟩ := bind_eq_ok.mp read
  obtain ⟨value, value_eq, same⟩ := bind_eq_ok.mp rest
  cases same
  exact ⟨decodedAt_eq_ok.mp key_eq, decodedAt_eq_ok.mp value_eq⟩

section Spread

variable {read : Reference → Except StoreError Loaded}

theorem forks_of_stepped {path : List BlockAddress} {here child : Loaded} {index : Nat}
    {asks : List Ask} (step : Stepped limit trunk path here index asks (.ok child))
    (answered : ∀ ask ∈ asks, ask.outcome = read ask.reference) :
    Forks read trunk.root trunk.sizes here (here.node.level.toNat - 1) index child := by
  cases step with
  | @entered oid _ pointer new level_eq not_root =>
    have reads := answered _ List.mem_cons_self
    exact ⟨⟨oid, pointer, reads.symm⟩, by omega, not_root⟩

/-- A round that comes to its end has visited the records of a leaf in its way. -/
theorem Round.through_leaf {path : List BlockAddress} {leaf : Loaded} {own final : ρ}
    {entered : List BlockAddress} {stops : List Stop} {asks : List Ask} {nodes : List Loaded}
    {records : List (Bytes × Bytes)} (is_leaf : leaf.node.isLeaf = true) (l : List Nat)
    (round : Round limit trunk visit entered own (l.map (fun index => ⟨path, leaf, index⟩) ++ stops)
      asks nodes records (.ok ()) final) :
    ∃ mine later next, List.Forall₂ (Bears trunk.sizes leaf) l mine ∧ records = mine ++ later ∧
      Round limit trunk visit entered next stops asks nodes later (.ok ()) final := by
  induction l generalizing own records with
  | nil => exact ⟨[], records, own, .nil, rfl, round⟩
  | cons index l ih =>
    cases round with
    | record is_leaf' read accepted rest =>
      obtain ⟨mine, later, next, bears, rfl, behind⟩ := ih rest
      exact ⟨_ :: mine, later, next, .cons (bears_of_recordAt read) bears, rfl, behind⟩
    | child inner step new rest => simp [is_leaf] at inner

variable (limit trunk visit read) in
/-- Of a round that comes to its end, what is left of it behind some blocks and some records. -/
def Behind (stops : List Stop) (final : ρ) (addresses blocks : List BlockAddress)
    (records mine : List (Bytes × Bytes)) : Prop :=
  ∃ entered next asks nodes later, records = mine ++ later ∧
    addresses = blocks ++ nodes.map Loaded.address ∧
    (∀ ask ∈ asks, ask.outcome = read ask.reference) ∧
    Round limit trunk visit entered next stops asks nodes later (.ok ()) final

variable (limit trunk visit read) in
/-- A round that comes to its end goes through all that lies below a node of this level. -/
def GoesThrough (level : Nat) : Prop :=
  ∀ {path : List BlockAddress} {here : Loaded} {own final : ρ} {entered : List BlockAddress}
    {stops : List Stop} {asks : List Ask} {nodes : List Loaded} {records : List (Bytes × Bytes)},
    here.node.level.toNat = level → (∀ ask ∈ asks, ask.outcome = read ask.reference) →
    Round limit trunk visit entered own (stopsAt path here ++ stops) asks nodes records (.ok ())
      final →
    ∃ mine blocks, Spread read trunk.root trunk.sizes level here mine blocks ∧
      Behind limit trunk visit read stops final (here.address :: nodes.map Loaded.address) blocks
        records mine

theorem goesThrough_leaf : GoesThrough limit trunk visit read 0 := by
  intro path here own final entered stops asks nodes records level_eq answered round
  have is_leaf := Node.leaf_of_level level_eq
  obtain ⟨mine, later, next, bears, rfl, behind⟩ := round.through_leaf is_leaf _
  exact ⟨mine, [here.address], ⟨rfl, bears⟩, entered, next, asks, nodes, later, rfl, rfl,
    answered, behind⟩

/-- The entries of a node are used up one by one, whatever has been entered on the way. -/
theorem GoesThrough.through_entries {level : Nat} (below : GoesThrough limit trunk visit read level)
    {path : List BlockAddress} {here : Loaded} (level_eq : here.node.level.toNat = level + 1)
    {stops : List Stop} {final : ρ} (l : List Nat) {own : ρ} {entered : List BlockAddress}
    {asks : List Ask} {nodes : List Loaded} {records : List (Bytes × Bytes)}
    (answered : ∀ ask ∈ asks, ask.outcome = read ask.reference)
    (round : Round limit trunk visit entered own (l.map (fun index => ⟨path, here, index⟩) ++ stops)
      asks nodes records (.ok ()) final) :
    ∃ boughs, List.Forall₂ (fun index (bough : Bough) =>
        Forks read trunk.root trunk.sizes here level index bough.top ∧
        Spread read trunk.root trunk.sizes level bough.top bough.records bough.blocks) l boughs ∧
      Behind limit trunk visit read stops final (nodes.map Loaded.address)
        (boughs.flatMap Bough.blocks) records (boughs.flatMap Bough.records) := by
  induction l generalizing own entered asks nodes records with
  | nil => exact ⟨[], .nil, entered, own, asks, nodes, records, rfl, rfl, answered, round⟩
  | cons index l ih =>
    have inner := Node.inner_of_level level_eq
    cases round with
    | record is_leaf read accepted rest => simp [inner] at is_leaf
    | child inner' step new rest =>
      have forks := forks_of_stepped step fun ask mem =>
        answered ask (List.mem_append_left _ mem)
      rw [level_eq, Nat.add_sub_cancel] at forks
      obtain ⟨mine, blocks, spread, _, _, _, _, _, rfl, addresses, answered', behind⟩ :=
        below forks.level_eq (fun ask mem => answered ask (List.mem_append_right _ mem)) rest
      obtain ⟨boughs, spreads, entered', next, asks', nodes', later, rfl, addresses',
        answered'', behind'⟩ := ih answered' behind
      refine ⟨⟨_, mine, blocks⟩ :: boughs, .cons ⟨forks, spread⟩ spreads, entered', next, asks',
        nodes', later, by simp, ?_, answered'', behind'⟩
      simp only [List.map_cons, addresses, addresses', List.flatMap_cons, List.append_assoc]

/-- A round that comes to its end has gone through all that lies below a node in its way. -/
theorem goesThrough (level : Nat) : GoesThrough limit trunk visit read level := by
  induction level with
  | zero => exact goesThrough_leaf
  | succ level ih =>
    intro path here own final entered stops asks nodes records level_eq answered round
    obtain ⟨boughs, spreads, entered', next, asks', nodes', later, rfl, addresses, answered',
      behind⟩ := ih.through_entries level_eq _ answered round
    exact ⟨_, _, ⟨boughs, rfl, rfl, spreads⟩, entered', next, asks', nodes', later, rfl,
      by rw [addresses, List.cons_append], answered', behind⟩

/-- A round that comes to its end has had every record accepted. -/
theorem Round.accepted {entered : List BlockAddress} {own final : ρ} {stops : List Stop}
    {asks : List Ask} {nodes : List Loaded} {records : List (Bytes × Bytes)}
    (round : Round limit trunk visit entered own stops asks nodes records (.ok ()) final) :
    (visitAll visit records).perform own = (.ok (), final) := by
  generalize outcome : (Except.ok () : Except StoreError Unit) = result at round
  induction round with
  | done => rfl
  | record is_leaf read accepted rest ih => exact (bind_of_ok accepted).trans (ih outcome)
  | child inner step new rest ih => exact ih outcome
  | unreadable is_leaf read => cases outcome
  | refused is_leaf read rejected => cases outcome
  | stopped inner step => cases outcome
  | shared inner step again => cases outcome

end Spread

theorem Walked.distinct {root : Reference} {own final : ρ} {asks : List Ask}
    {nodes : List Loaded} {records : List (Bytes × Bytes)} {result : Except StoreError Nat}
    (walked : Walked limit visit root own asks nodes records result final) :
    (nodes.map Loaded.address).Nodup := by
  cases walked with
  | refused start => simp
  | round start round =>
    obtain ⟨distinct, apart⟩ := round.distinct
    simp only [List.map_cons, List.nodup_cons]
    refine ⟨fun inside => ?_, distinct⟩
    obtain ⟨n, mem, same⟩ := List.mem_map.mp inside
    exact apart n mem (by simp [same])

/-- A walk that comes to its end has gone through a tree, with the records it has visited and the
blocks it has entered. -/
theorem Walked.tree {read : Reference → Except StoreError Loaded} {root : Reference}
    {own final : ρ} {asks : List Ask} {nodes : List Loaded} {records : List (Bytes × Bytes)}
    {n : Nat} (walked : Walked limit visit root own asks nodes records (.ok n) final)
    (answered : ∀ ask ∈ asks, ask.outcome = read ask.reference) :
    n = records.length ∧
      (∃ top, SpreadTree read root limit top records (nodes.map Loaded.address)) ∧
      (visitAll visit records).perform own = (.ok (), final) := by
  have distinct := walked.distinct
  generalize whole : (Except.ok n : Except StoreError Nat) = outcome at walked
  cases walked with
  | refused start => cases whole
  | @round asks more top nodes records result final start round =>
    cases result with
    | error e => cases whole
    | ok _ =>
      cases whole
      cases start with
      | entered is_root shallow =>
        have reads_top : read root = .ok top := (answered _ List.mem_cons_self).symm
        have accepted := round.accepted
        rw [← List.append_nil (stopsAt [top.address] top)] at round
        obtain ⟨mine, blocks, spread, entered, next, asks', nodes', later, rfl, addresses, -,
          behind⟩ := goesThrough _ rfl (fun ask mem =>
            answered ask (List.mem_append_right _ mem)) round
        cases behind
        rw [List.append_nil] at accepted ⊢
        rw [List.map_nil, List.append_nil] at addresses
        rw [List.map_cons, addresses] at distinct ⊢
        exact ⟨rfl, ⟨top, reads_top, is_root, shallow, spread, distinct⟩, accepted⟩

theorem Walked.length_le {root : Reference} {own final : ρ} {asks : List Ask}
    {nodes : List Loaded} {records : List (Bytes × Bytes)} {result : Except StoreError Nat}
    (walked : Walked limit visit root own asks nodes records result final) :
    asks.length ≤ nodes.length + 1 := by
  cases walked with
  | refused start => cases start <;> simp
  | round start round =>
    have few := round.length_le
    cases start with
    | entered is_root shallow => simpa using few

end

namespace Navigator

variable {σ ρ : Type} {nav : Navigator (Session σ)} {trunk : Trunk}
  {visit : Bytes → Bytes → Session ρ Unit}

def walkEntries {m : Type → Type} [Monad m] [MonadExceptOf StoreError m] (nav : Navigator m)
    (trunk : Trunk) (visit : Bytes → Bytes → m Unit) (level : Nat) (path : List BlockAddress)
    (here : Loaded) (p : Progress) : m Progress :=
  match level with
  | 0 => (List.range here.node.keyCount).foldlM (fun p index => do
      let (key, value) ← recordAt trunk here index
      visit key value
      return { p with count := p.count + 1 }) p
  | level + 1 => (List.range here.node.keyCount).foldlM (fun p index => do
      let child ← nav.step trunk (here.address :: path) here index
      nav.walkBelow trunk visit level (here.address :: path) child p) p

theorem walkBelow_eq {m : Type → Type} [Monad m] [MonadExceptOf StoreError m] (nav : Navigator m)
    (trunk : Trunk) (visit : Bytes → Bytes → m Unit) (level : Nat) (path : List BlockAddress)
    (here : Loaded) (p : Progress) : nav.walkBelow trunk visit level path here p
      = enter here p >>= nav.walkEntries trunk visit level path here := by
  cases level <;> rfl

theorem beside_agrees (nav : Navigator (Session σ)) (own : ρ) :
    nav.beside.Agrees (fun _ => True) (fun s t => s.1 = t ∧ s.2 = own) nav := by
  refine ⟨rfl, fun reference => ⟨fun _ _ => trivial, ?_⟩⟩
  rintro ⟨s, own'⟩ t ⟨same, kept⟩ -
  simp only at same kept
  subst same kept
  exact ⟨rfl, rfl, rfl⟩

theorem perform_beside_rootNode {root : Reference} {s s' : σ} {result : Except StoreError Loaded}
    (run : (nav.rootNode root).perform s = (result, s')) (own : ρ) :
    (nav.beside.rootNode root).perform (s, own) = (result, (s', own)) := by
  obtain ⟨same, left, kept⟩ := (simulates_rootNode (beside_agrees nav own) root).agree (s, own) s
    ⟨rfl, rfl⟩ trivial
  rw [run] at same left
  exact Prod.ext same (Prod.ext left kept)

theorem perform_beside_step (nav : Navigator (Session σ)) (trunk : Trunk)
    (path : List BlockAddress) (parent : Loaded) (index : Nat) (s : σ) (asks : List Ask) (own : ρ) :
    ∃ s' new result, (nav.watched.beside.step trunk path parent index).perform ((s, asks), own)
        = (result, ((s', asks ++ new), own)) ∧
      Stepped nav.maxDepth trunk path parent index new result := by
  obtain ⟨s', new, result, run, step⟩ := perform_step nav trunk path parent index s asks
  obtain ⟨same, left, kept⟩ := (simulates_step (beside_agrees nav.watched own) trunk path parent
    index).agree ((s, asks), own) (s, asks) ⟨rfl, rfl⟩ trivial
  rw [run] at same left
  exact ⟨s', new, result, Prod.ext same (Prod.ext left kept), step⟩

/-- What is left of a walk goes through these stops. -/
def Completes (nav : Navigator (Session σ)) (trunk : Trunk)
    (visit : Bytes → Bytes → Session ρ Unit) (stops : List Stop)
    (rest : Progress → Session ((σ × List Ask) × ρ) Nat) : Prop :=
  ∀ p s asks own, ∃ s' new nodes records result final,
    (rest p).perform ((s, asks), own)
      = (result.map fun _ => p.count + records.length, ((s', asks ++ new), final)) ∧
    Round nav.maxDepth trunk visit p.entered own stops new nodes records result final

theorem perform_enter {here : Loaded} {p : Progress} (new : here.address ∉ p.entered) (s : σ) :
    Session.perform (enter here p) s
      = (.ok { p with entered := here.address :: p.entered }, s) := by
  rw [enter_new new]
  rfl

theorem completes_done : Completes nav trunk visit [] fun p => pure p.count := by
  intro p s asks own
  exact ⟨s, [], [], [], .ok (), own, by rw [List.append_nil]; rfl, .done⟩

theorem completes_record {stops : List Stop}
    {rest : Progress → Session ((σ × List Ask) × ρ) Nat}
    (completes : Completes nav trunk visit stops rest)
    {leaf : Loaded} (is_leaf : leaf.node.isLeaf = true) (path : List BlockAddress) (index : Nat) :
    Completes nav trunk visit (⟨path, leaf, index⟩ :: stops) fun p => (do
      let (key, value) ← recordAt trunk leaf index
      onRight (visit key value)
      return { p with count := p.count + 1 }) >>= rest := by
  intro p s asks own
  have looked := perform_recordAt trunk leaf index ((s, asks), own)
  cases read : (recordAt trunk leaf index : Except StoreError (Bytes × Bytes)) with
  | error e =>
    refine ⟨s, [], [], [], .error e, own, ?_, .unreadable is_leaf read⟩
    rw [List.append_nil]
    exact bind_of_error (bind_of_error (looked.trans (by rw [read])))
  | ok record =>
    obtain ⟨key, value⟩ := record
    have called := perform_onRight (visit key value) ((s, asks), own)
    rcases visited : (visit key value).perform own with ⟨e | ⟨⟩, next⟩
    · rw [visited] at called
      refine ⟨s, [], [], [(key, value)], .error e, next, ?_, .refused is_leaf read visited⟩
      rw [List.append_nil]
      exact bind_of_error ((bind_of_ok (looked.trans (by rw [read]))).trans (bind_of_error called))
    · rw [visited] at called
      obtain ⟨s', new, nodes, records, result, final, run, round⟩ :=
        completes { p with count := p.count + 1 } s asks next
      refine ⟨s', new, nodes, (key, value) :: records, result, final, ?_,
        .record is_leaf read visited round⟩
      have first : Session.perform (do
          let (key, value) ← recordAt trunk leaf index
          onRight (visit key value)
          return { p with count := p.count + 1 }) ((s, asks), own)
          = (.ok { p with count := p.count + 1 }, ((s, asks), next)) :=
        (bind_of_ok (looked.trans (by rw [read]))).trans (bind_of_ok called)
      rw [bind_of_ok first, run]
      simp [Nat.add_assoc, Nat.add_comm 1]

theorem completes_child {level : Nat} {stops : List Stop}
    {rest : Progress → Session ((σ × List Ask) × ρ) Nat} {path : List BlockAddress}
    {here : Loaded} (level_eq : here.node.level.toNat = level + 1) (index : Nat)
    (below : ∀ child, child.node.level.toNat = level →
      Completes nav trunk visit (stopsAt (child.address :: path) child ++ stops) fun p =>
        nav.watched.beside.walkEntries trunk (fun key value => onRight (visit key value)) level path
          child p >>= rest) :
    Completes nav trunk visit (⟨path, here, index⟩ :: stops) fun p => (do
      let child ← nav.watched.beside.step trunk path here index
      nav.watched.beside.walkBelow trunk (fun key value => onRight (visit key value)) level path
        child p) >>= rest := by
  intro p s asks own
  have inner := Node.inner_of_level level_eq
  obtain ⟨s', new, result, run, step⟩ := perform_beside_step nav trunk path here index s asks own
  cases result with
  | error e =>
    exact ⟨s', new, [], [], .error e, own, bind_of_error (bind_of_error run), .stopped inner step⟩
  | ok child =>
    have child_level : child.node.level.toNat = level := by
      cases step with
      | entered pointer fresh level_eq' not_root => omega
    dsimp only
    rw [bind_assoc, bind_of_ok run, walkBelow_eq, bind_assoc]
    by_cases again : child.address ∈ p.entered
    · refine ⟨s', new, [], [], .error (.corrupt child.address _), own, ?_, .shared inner step again⟩
      apply bind_of_error
      rw [enter, if_pos (List.contains_iff_mem.mpr again)]
      rfl
    · obtain ⟨s'', more, nodes, records, result, final, ran, round⟩ := below child child_level
        { p with entered := child.address :: p.entered } s' (asks ++ new) own
      refine ⟨s'', new ++ more, child :: nodes, records, result, final, ?_,
        .child inner step again round⟩
      rw [bind_of_ok (perform_enter again _), ran, List.append_assoc]

theorem completes_fold {path : List BlockAddress} {here : Loaded}
    {f : Progress → Nat → Session ((σ × List Ask) × ρ) Progress}
    (each : ∀ index (stops : List Stop) rest, Completes nav trunk visit stops rest →
      Completes nav trunk visit (⟨path, here, index⟩ :: stops) fun p => f p index >>= rest)
    {stops : List Stop} {rest : Progress → Session ((σ × List Ask) × ρ) Nat}
    (completes : Completes nav trunk visit stops rest) (l : List Nat) :
    Completes nav trunk visit (l.map (fun index => ⟨path, here, index⟩) ++ stops) fun p =>
      l.foldlM f p >>= rest := by
  induction l with
  | nil =>
    intro p
    simpa using completes p
  | cons index l ih =>
    intro p
    simpa [List.foldlM_cons] using each index _ _ ih p

/-- The entries of a node are gone through before the stops that are left. -/
theorem completes_entries :
    ∀ (level : Nat) (path : List BlockAddress) (here : Loaded) (stops : List Stop)
      (rest : Progress → Session ((σ × List Ask) × ρ) Nat), here.node.level.toNat = level →
      Completes nav trunk visit stops rest →
      Completes nav trunk visit (stopsAt (here.address :: path) here ++ stops) fun p =>
        nav.watched.beside.walkEntries trunk (fun key value => onRight (visit key value)) level path
          here p >>= rest := by
  intro level
  induction level with
  | zero =>
    intro path here stops rest level_eq completes
    have is_leaf := Node.leaf_of_level level_eq
    exact completes_fold (fun index stops rest completes =>
      completes_record completes is_leaf _ index) completes _
  | succ level ih =>
    intro path here stops rest level_eq completes
    refine completes_fold (fun index stops rest completes => ?_) completes _
    exact completes_child level_eq index fun child child_level =>
      ih (here.address :: path) child stops rest child_level completes

/-- A walk as it runs, and what it does as it is watched. The first node that it enters is the root,
if that may be entered. -/
theorem perform_walk (nav : Navigator (Session σ)) (root : Reference)
    (visit : Bytes → Bytes → Session ρ Unit) (s : σ) (own : ρ) :
    ∃ later asks nodes records result final,
      (nav.walkWith root visit).perform (s, own) = (result, (later, final)) ∧
      (nav.watched.walkWith root visit).perform ((s, []), own) = (result, ((later, asks), final)) ∧
      Walked nav.maxDepth visit root own asks nodes records result final ∧
      nodes.head? = ((nav.rootNode root).perform s).1.toOption := by
  obtain ⟨same_root, -⟩ :=
    (simulates_rootNode nav.watched_agrees root).agree (s, []) s rfl trivial
  have watched : ∃ later asks nodes records result final,
      (nav.watched.walkWith root visit).perform ((s, []), own)
          = (result, ((later, asks), final)) ∧
        Walked nav.maxDepth visit root own asks nodes records result final ∧
        nodes.head? = ((nav.rootNode root).perform s).1.toOption := by
    obtain ⟨s', new, result, run, start⟩ := perform_rootNode nav root s []
    have looked := perform_beside_rootNode run own
    rw [← same_root, run]
    cases result with
    | error e => exact ⟨s', new, [], [], .error e, own, bind_of_error looked, .refused start, rfl⟩
    | ok top =>
      obtain ⟨s'', more, nodes, records, result, final, ran, round⟩ := completes_entries
        top.node.level.toNat [] top [] _ rfl completes_done ⟨[top.address], 0⟩ s' ([] ++ new) own
      rw [List.append_nil] at round
      refine ⟨s'', new ++ more, top :: nodes, records, _, final, ?_, .round start round, rfl⟩
      rw [walkWith, walk, bind_of_ok looked, walkBelow_eq, bind_assoc,
        bind_of_ok (perform_enter List.not_mem_nil _)]
      refine ran.trans ?_
      simp
  obtain ⟨later, asks, nodes, records, result, final, run, walked⟩ := watched
  obtain ⟨same, left, kept⟩ := (simulates_walkWith nav.watched_agrees root visit).agree
    ((s, []), own) (s, own) ⟨rfl, rfl⟩ trivial
  rw [run] at same left kept
  exact ⟨later, asks, nodes, records, result, final,
    Prod.ext same.symm (Prod.ext left.symm kept.symm), run, walked⟩

theorem walk_asked {nav : Navigator (Session σ)} {root : Reference}
    {visit : Bytes → Bytes → Session ρ Unit} {s later : σ} {own final : ρ} {asks : List Ask}
    {result : Except StoreError Nat}
    (run : (nav.watched.walkWith root visit).perform ((s, []), own)
      = (result, ((later, asks), final))) : nav.Asked s later asks := by
  have kept := ensures_walkWith root (fun _ => asked_watched nav s _) visit ((s, []), own) .start
  have asked := kept.1
  rw [run] at asked
  exact asked

/-- A walk ends whatever its source hands out: it enters no block twice, and asks for one node more
at most. Its visitor sees the records of the leaves it enters from left to right. Over a source
that hands out the same nodes each time, it comes to its end exactly if what is reachable from the
root is a tree and the visitor accepts every record; then the records are those of the tree. -/
theorem walk_goes_round (nav : Navigator (Session σ)) (root : Reference)
    (visit : Bytes → Bytes → Session ρ Unit) (s : σ) (own : ρ) :
    ∃ s' asks nodes records result final,
      (nav.walkWith root visit).perform (s, own) = (result, (s', final)) ∧
      (nav.watched.walkWith root visit).perform ((s, []), own) = (result, ((s', asks), final)) ∧
      asks.length ≤ nodes.length + 1 ∧
      (nodes.map Loaded.address).Nodup ∧
      Walked nav.maxDepth visit root own asks nodes records result final ∧
      ∀ (I : σ → Prop) (read : Reference → Except StoreError Loaded),
        (∀ reference, Yields I (nav.source reference) (read reference)) → I s →
        (∀ ask ∈ asks, ask.outcome = read ask.reference) ∧
        (∀ n, result = .ok n ↔ ∃ top tree blocks,
          SpreadTree read root nav.maxDepth top tree blocks ∧
            (∃ seen, (visitAll visit tree).perform own = (.ok (), seen)) ∧ n = tree.length) ∧
        ∀ n, result = .ok n → ∃ top,
          SpreadTree read root nav.maxDepth top records (nodes.map Loaded.address) ∧
            (visitAll visit records).perform own = (.ok (), final) ∧ n = records.length := by
  obtain ⟨s', asks, nodes, records, result, final, plain, run, walked, -⟩ :=
    perform_walk nav root visit s own
  refine ⟨s', asks, nodes, records, result, final, plain, run, walked.length_le, walked.distinct,
    walked, fun I read answers start => ?_⟩
  have answered : ∀ ask ∈ asks, ask.outcome = read ask.reference :=
    ((walk_asked run).answered answers start).2
  have ends : ∀ n, result = .ok n → n = records.length ∧
      (∃ top, SpreadTree read root nav.maxDepth top records (nodes.map Loaded.address)) ∧
      (visitAll visit records).perform own = (.ok (), final) := by
    rintro n rfl
    exact walked.tree answered
  refine ⟨answered, fun n => ⟨fun ok => ?_, ?_⟩, fun n ok => ?_⟩
  · obtain ⟨count, ⟨top, tree⟩, accepted⟩ := ends n ok
    exact ⟨top, records, _, tree, ⟨final, accepted⟩, count⟩
  · rintro ⟨top, tree, blocks, spread, ⟨seen, accepted⟩, rfl⟩
    have still := (walkWith_still nav answers root visit).agree (s, own) own ⟨start, rfl⟩ trivial
    rw [walk_spread spread, bind_of_ok accepted, plain] at still
    exact still.1
  · obtain ⟨count, ⟨top, tree⟩, accepted⟩ := ends n ok
    exact ⟨top, tree, accepted, count⟩

def selfPointing : Loaded where
  address := 7
  node := {
    order := .little
    bytes := ⟨Array.replicate 56 0 ++ #[0, 0, 8, 0] ++ Array.replicate 8 0 ++
      #[7, 0, 0, 0, 0, 0, 0, 0] ++ Array.replicate 40 0⟩
    header := ⟨⟨0, 7, 1, TypeWord.tree, 0⟩, NodeHeader.rootFlag ||| NodeHeader.fixedFlag, 1, 1,
      ⟨0, 4⟩, ⟨8, 0⟩, ⟨0, 0⟩, ⟨0, 0⟩⟩
    footer := some ⟨0, 116, 8, 8, 8, 8, 1, 1⟩
    leaf_iff_level := by decide }

/-- Where every reference leads to one node, a walk meets that node again and stops, as what is
reachable is no tree. -/
theorem walk_goes_round_self_pointing :
    ∃ (asks : List Ask) (nodes : List Loaded),
      ((still (fun _ => .ok selfPointing) 16).watched.walkWith (.physical 7) collect).perform
          (((), []), [])
        = (.error (.treeTooDeep 7 16), (((), asks), [])) ∧
      asks.length ≤ nodes.length + 1 ∧ (nodes.map Loaded.address).Nodup ∧
      ∀ top tree blocks,
        ¬SpreadTree (fun _ => .ok selfPointing) (.physical 7) 16 top tree blocks := by
  have stopped : ((still (fun _ => .ok selfPointing) 16).walkWith (.physical 7) collect).perform
      ((), []) = (.error (.treeTooDeep 7 16), ((), [])) := by decide +kernel
  obtain ⟨s', asks, nodes, records, result, final, run, watched, few, distinct, -, answering⟩ :=
    walk_goes_round (still (fun _ => .ok selfPointing) 16) (.physical 7) collect () []
  rw [stopped] at run
  cases run
  obtain ⟨-, walked_iff, -⟩ := answering (fun _ => True) (fun _ => .ok selfPointing)
    (fun _ => yields_ofExcept rfl) trivial
  refine ⟨asks, nodes, watched, few, distinct, fun top tree blocks spread => ?_⟩
  exact nomatch (walked_iff tree.length).mpr
    ⟨top, tree, blocks, spread, ⟨_, visitAll_collect tree []⟩, rfl⟩

end Navigator

end ObjectStore.Tree
