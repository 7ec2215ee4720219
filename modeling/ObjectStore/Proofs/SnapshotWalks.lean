import ObjectStore.ObjectMap.Map
import ObjectStore.Proofs.Likenings
import ObjectStore.Proofs.Runs
import ObjectStore.Tree.Navigator

/-
The snapshots of an object map as a walk of their tree, whose visitor decodes the records and keeps
them. A list that grows on top of a session is lost with an error, one beside it is not; up to
there the two are alike.
-/
namespace ObjectStore

open Session

variable {σ ρ α β : Type}

/-- A computation with a state on top of a session, and one with the same state beside it. -/
def Session.Lays (x : StateT ρ (Session σ) α) (y : Session (σ × ρ) α) : Prop :=
  ∀ s own, (x.run own).perform s =
    ((y.perform (s, own)).1.map fun a => (a, (y.perform (s, own)).2.2),
      (y.perform (s, own)).2.1)

namespace Session

theorem Lays.bind {x : StateT ρ (Session σ) α} {y : Session (σ × ρ) α}
    {f : α → StateT ρ (Session σ) β} {g : α → Session (σ × ρ) β} (first : Lays x y)
    (next : ∀ a, Lays (f a) (g a)) : Lays (x >>= f) (y >>= g) := by
  intro s own
  have run := first s own
  rw [StateT.run_bind, perform_bind, perform_bind, run]
  rcases y.perform (s, own) with ⟨e | a, s', own'⟩
  · rfl
  · exact next a s' own'

def laying (σ ρ : Type) : Likening (StateT ρ (Session σ)) (Session (σ × ρ)) where
  Like := Lays
  done _ _ _ := rfl
  refused _ _ _ := rfl
  bind := Lays.bind
  stopped _ _ _ _ _ := rfl

theorem lays_source (x : Session σ α) :
    Lays (liftM x : StateT ρ (Session σ) α) (onLeft x) := by
  intro s own
  have lifted : (liftM x : StateT ρ (Session σ) α).run own = (x >>= fun a => pure (a, own)) := rfl
  have beside : (onLeft x).perform (s, own) = ((x.perform s).1, ((x.perform s).2, own)) := rfl
  rw [lifted, beside, perform_bind]
  rcases x.perform s with ⟨e | a, s'⟩ <;> rfl

def under (nav : Tree.Navigator (Session σ)) : Tree.Navigator (StateT ρ (Session σ)) :=
  ⟨fun reference => liftM (nav.source reference), nav.maxDepth⟩

theorem lays_walk (nav : Tree.Navigator (Session σ)) (root : Reference)
    {visit : Bytes → Bytes → StateT ρ (Session σ) Unit} {visit' : Bytes → Bytes → Session ρ Unit}
    (visits : ∀ key value, Lays (visit key value) (onRight (visit' key value))) :
    Lays ((under nav).walk root visit) (nav.walkWith root visit') := by
  have depth_eq : (under (ρ := ρ) nav).maxDepth = (nav.beside (τ := ρ)).maxDepth := rfl
  have sources : ∀ reference, (laying σ ρ).Like ((under nav).source reference)
      (nav.beside.source reference) := fun reference => lays_source (nav.source reference)
  exact (laying σ ρ).walk depth_eq sources visits root

end Session

namespace ObjectMap

def keepSnapshot (map : ObjectMap) (key value : Bytes) :
    Session (List (TransactionId × Snapshot)) Unit := do
  let record ← map.snapshotOf key value
  Session.change (record :: ·)

theorem lays_keepSnapshot (map : ObjectMap) (key value : Bytes) :
    Lays (do let record ← map.snapshotOf key value; modify (record :: ·)
      : StateT (List (TransactionId × Snapshot)) (Session σ) Unit)
      (onRight (map.keepSnapshot key value)) := by
  intro s own
  have beside := perform_onRight (σ := σ) (map.keepSnapshot key value) (s, own)
  rw [beside, keepSnapshot]
  unfold snapshotOf
  rcases map.order.read64 key 0 with e | xid
  · rfl
  · rcases Snapshot.parse map.order value with e | snapshot <;> rfl

/-- The snapshots come in the order of the walk, the last one being kept first. -/
theorem perform_snapshots (map : ObjectMap) (nodes : Reference → Session σ Tree.Loaded)
    (has_tree : map.descriptor.hasSnapshotTree = true)
    (physical : map.descriptor.snapshotTreeStorage? = some .physical) (s : σ) :
    let run :=
      ((map.navigator nodes).walkWith map.snapshotTreeRoot map.keepSnapshot).perform (s, [])
    (map.snapshots nodes).perform s = (run.1.map fun _ => run.2.2.reverse, run.2.1) := by
  have collector_eq : (map.navigator fun reference => liftM (nodes reference)
    : Tree.Navigator (StateT (List (TransactionId × Snapshot)) (Session σ)))
      = under (map.navigator nodes) := rfl
  have walked := lays_walk (map.navigator nodes) map.snapshotTreeRoot (lays_keepSnapshot map) s []
  dsimp only
  rw [snapshots, has_tree, physical]
  simp only [Bool.not_true, Bool.false_eq_true, ↓reduceIte, ne_eq, not_true_eq_false]
  rw [collector_eq, perform_bind, walked]
  rcases ((map.navigator nodes).walkWith map.snapshotTreeRoot map.keepSnapshot).perform (s, [])
    with ⟨e | n, later, kept⟩ <;> rfl

end ObjectMap

end ObjectStore
