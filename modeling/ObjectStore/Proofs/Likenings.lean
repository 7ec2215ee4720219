import ObjectStore.Tree.Navigator

/-
Computations of two kinds that are alike step by step. A search or a walk knows nothing of its
source and of its visitor but how to go on behind them; so where those are alike, so is all of it.
-/
namespace ObjectStore

/-- A relation between computations of two kinds that passes from steps to what is made of them. -/
structure Likening (m m' : Type → Type) [Monad m] [MonadExceptOf StoreError m] [Monad m']
    [MonadExceptOf StoreError m'] where
  Like : {α : Type} → m α → m' α → Prop
  done : ∀ {α : Type} (a : α), Like (pure a) (pure a)
  refused : ∀ {α : Type} (e : StoreError), Like (throw e : m α) (throw e : m' α)
  bind : ∀ {α β : Type} {x : m α} {x' : m' α} {f : α → m β} {f' : α → m' β},
    Like x x' → (∀ a, Like (f a) (f' a)) → Like (x >>= f) (x' >>= f')
  /-- An error ends a computation, whatever was to come. -/
  stopped : ∀ {α β : Type} (e : StoreError) (f : α → m β) (f' : α → m' β),
    Like (throw e >>= f) (throw e >>= f')

namespace Likening

open ObjectStore.Tree ObjectStore.Tree.Navigator

variable {m m' : Type → Type} [Monad m] [MonadExceptOf StoreError m] [Monad m']
  [MonadExceptOf StoreError m'] (F : Likening m m') {α β τ : Type}

theorem decodedAt (block : BlockAddress) (result : Except DecodeError α) :
    F.Like (decodedAt block result : m α) (decodedAt block result) := by
  cases result with
  | ok a => exact F.done a
  | error e => exact F.refused _

theorem checked {c : Prop} [Decidable c] {e : StoreError} {f : α → m β} {f' : α → m' β} {x : m β}
    {x' : m' β} (rest : F.Like x x') :
    F.Like (if c then throw e >>= f else x) (if c then throw e >>= f' else x') := by
  split
  · exact F.stopped e f f'
  · exact rest

theorem foldlM {step : β → α → m β} {step' : β → α → m' β}
    (each : ∀ b a, F.Like (step b a) (step' b a)) (l : List α) (b : β) :
    F.Like (l.foldlM step b) (l.foldlM step' b) := by
  induction l generalizing b with
  | nil => exact F.done b
  | cons a l ih =>
    rw [List.foldlM_cons, List.foldlM_cons]
    exact F.bind (each b a) ih

theorem locateIn (trunk : Trunk) (order : KeyOrder τ) (target : τ) (how : Match) (here : Loaded) :
    F.Like (locateIn trunk order target how here : m Nat)
      (locateIn trunk order target how here) := by
  apply F.bind (F.decodedAt _ _)
  intro place
  cases place with
  | none => exact F.refused _
  | some index => exact F.done index

theorem recordAt (trunk : Trunk) (here : Loaded) (index : Nat) :
    F.Like (recordAt trunk here index : m (Bytes × Bytes)) (recordAt trunk here index) := by
  apply F.bind (F.decodedAt _ _)
  intro key
  exact F.bind (F.decodedAt _ _) fun value => F.done _

theorem enter (here : Loaded) (p : Progress) :
    F.Like (enter here p : m Progress) (enter here p) :=
  F.checked (F.done _)

section

variable {nav : Navigator m} {nav' : Navigator m'} (depth_eq : nav.maxDepth = nav'.maxDepth)
  (sources : ∀ reference, F.Like (nav.source reference) (nav'.source reference))

include depth_eq sources

theorem rootNode (root : Reference) : F.Like (nav.rootNode root) (nav'.rootNode root) := by
  apply F.bind (sources root)
  intro top
  rw [depth_eq]
  exact F.checked (F.checked (F.done _))

theorem step (trunk : Trunk) (path : List BlockAddress) (parent : Loaded) (index : Nat) :
    F.Like (nav.step trunk path parent index) (nav'.step trunk path parent index) := by
  have child : F.Like (nav.readChild trunk.root trunk.sizes parent index)
      (nav'.readChild trunk.root trunk.sizes parent index) := by
    apply F.bind (F.decodedAt _ _)
    intro oid
    exact F.bind (sources _) fun _ => F.done _
  apply F.bind child
  rintro ⟨reference, child⟩
  rw [depth_eq]
  apply F.checked
  split
  · exact F.refused _
  · exact F.done _

theorem findBelow (trunk : Trunk) (order : KeyOrder τ) (target : τ) (how : Match) :
    ∀ (level : Nat) (path : List BlockAddress) (rightmost : Bool) (here : Loaded),
      F.Like (nav.findBelow trunk order target how level path rightmost here)
        (nav'.findBelow trunk order target how level path rightmost here) := by
  intro level
  induction level with
  | zero =>
    intro path rightmost here
    apply F.bind (F.locateIn _ _ _ _ _)
    intro index
    exact F.bind (F.recordAt _ _ _) fun _ => F.done _
  | succ level ih =>
    intro path rightmost here
    apply F.bind (F.locateIn _ _ _ _ _)
    intro index
    exact F.bind (F.step depth_eq sources _ _ _ _) fun child => ih _ _ _

theorem find (order : KeyOrder τ) (root : Reference) (target : τ) (how : Match) :
    F.Like (nav.find order root target how) (nav'.find order root target how) :=
  F.bind (F.rootNode depth_eq sources root) fun _ => F.findBelow depth_eq sources _ _ _ _ _ _ _ _

variable {visit : Bytes → Bytes → m Unit} {visit' : Bytes → Bytes → m' Unit}
  (visits : ∀ key value, F.Like (visit key value) (visit' key value))

include visits

theorem walkBelow (trunk : Trunk) :
    ∀ (level : Nat) (path : List BlockAddress) (here : Loaded) (p : Progress),
      F.Like (nav.walkBelow trunk visit level path here p)
        (nav'.walkBelow trunk visit' level path here p) := by
  intro level
  induction level with
  | zero =>
    intro path here p
    refine F.bind (F.enter here p) fun p => F.foldlM (fun p index => ?_) _ p
    apply F.bind (F.recordAt _ _ _)
    intro record
    exact F.bind (visits _ _) fun _ => F.done _
  | succ level ih =>
    intro path here p
    refine F.bind (F.enter here p) fun p => F.foldlM (fun p index => ?_) _ p
    exact F.bind (F.step depth_eq sources _ _ _ _) fun child => ih _ child p

theorem walk (root : Reference) : F.Like (nav.walk root visit) (nav'.walk root visit') := by
  apply F.bind (F.rootNode depth_eq sources root)
  intro top
  exact F.bind (F.walkBelow depth_eq sources visits _ _ _ _ _) fun _ => F.done _

end

end Likening

end ObjectStore
