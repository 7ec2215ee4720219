import ObjectStore.Proofs.Likenings
import ObjectStore.Proofs.Runs
import ObjectStore.Tree.Navigator

/-
Sessions that cannot be told apart by their results, though their states differ, for as long as
the state of one of them keeps a property. What a search or a walk does depends on its source
only through the nodes that it is handed.
-/
namespace ObjectStore.Session

/-- From related states both sessions come to the same result, and to related states, if the
second ends in a state with `G`. It never gets there from a state without. -/
structure Simulates (G : ρ → Prop) (R : σ → ρ → Prop) (x : Session σ α) (y : Session ρ α) :
    Prop where
  lasting : ∀ t, G (y.perform t).2 → G t
  agree : ∀ s t, R s t → G (y.perform t).2 →
    (x.perform s).1 = (y.perform t).1 ∧ R (x.perform s).2 (y.perform t).2

variable {σ ρ τ α β : Type} {G : ρ → Prop} {R : σ → ρ → Prop}

theorem simulates_pure (a : α) : Simulates G R (pure a) (pure a) :=
  ⟨fun _ good => good, fun _ _ related _ => ⟨rfl, related⟩⟩

theorem simulates_throw (e : StoreError) :
    Simulates G R (throw e : Session σ α) (throw e : Session ρ α) :=
  ⟨fun _ good => good, fun _ _ related _ => ⟨rfl, related⟩⟩

theorem Simulates.bind {x : Session σ α} {y : Session ρ α} {f : α → Session σ β}
    {g : α → Session ρ β} (first : Simulates G R x y) (next : ∀ a, Simulates G R (f a) (g a)) :
    Simulates G R (x >>= f) (y >>= g) := by
  have middle : ∀ t, G ((y >>= g).perform t).2 → G (y.perform t).2 := by
    intro t good
    rw [perform_bind] at good
    rcases right : y.perform t with ⟨e | a, t'⟩
    · rw [right] at good
      exact good
    · rw [right] at good
      exact (next a).lasting t' good
  refine ⟨fun t good => first.lasting t (middle t good), fun s t related good => ?_⟩
  obtain ⟨same, kept⟩ := first.agree s t related (middle t good)
  simp only [perform_bind] at good ⊢
  rcases left : x.perform s with ⟨result, s'⟩
  rcases right : y.perform t with ⟨result', t'⟩
  simp only [left, right] at same kept good
  subst same
  cases result with
  | error e => exact ⟨rfl, kept⟩
  | ok a => exact (next a).agree s' t' kept good

def likening (G : ρ → Prop) (R : σ → ρ → Prop) : Likening (Session σ) (Session ρ) where
  Like := Simulates G R
  done := simulates_pure
  refused := simulates_throw
  bind := Simulates.bind
  stopped _ _ _ := ⟨fun _ good => good, fun _ _ related _ => ⟨rfl, related⟩⟩

theorem simulates_decodedAt (block : BlockAddress) (result : Except DecodeError α) :
    Simulates G R (decodedAt block result : Session σ α) (decodedAt block result : Session ρ α) :=
  (likening G R).decodedAt block result

theorem simulates_ite {c : Prop} [Decidable c] {x x' : Session σ α} {y y' : Session ρ α}
    (yes : Simulates G R x y) (no : Simulates G R x' y') :
    Simulates G R (if c then x else x') (if c then y else y') := by
  split
  · exact yes
  · exact no

theorem simulates_checked {c : Prop} [Decidable c] {e : StoreError} {f : PUnit → Session σ α}
    {g : PUnit → Session ρ α} {x : Session σ α} {y : Session ρ α} (rest : Simulates G R x y) :
    Simulates G R (if c then throw e >>= f else x) (if c then throw e >>= g else y) :=
  (likening G R).checked rest

theorem Simulates.onLeft {x : Session σ α} {y : Session ρ α} (run : Simulates G R x y) :
    Simulates (fun t : ρ × τ => G t.1) (fun s t => R s.1 t.1 ∧ s.2 = t.2) (onLeft x)
      (onLeft y) := by
  refine ⟨fun t good => run.lasting t.1 good, fun s t related good => ?_⟩
  obtain ⟨same, kept⟩ := run.agree s.1 t.1 related.1 good
  exact ⟨same, kept, related.2⟩

theorem simulates_onRight (x : Session τ α) :
    Simulates (fun t : ρ × τ => G t.1) (fun s t => R s.1 t.1 ∧ s.2 = t.2) (onRight x)
      (onRight x) := by
  refine ⟨fun _ good => good, ?_⟩
  rintro ⟨s, own⟩ ⟨t, own'⟩ ⟨related, same⟩ -
  simp only at same
  subst same
  exact ⟨rfl, related, rfl⟩

end ObjectStore.Session

namespace ObjectStore.Tree.Navigator

open Session

structure Agrees (G : ρ → Prop) (R : σ → ρ → Prop) (nav : Navigator (Session σ))
    (other : Navigator (Session ρ)) : Prop where
  depth_eq : nav.maxDepth = other.maxDepth
  sources : ∀ reference, Simulates G R (nav.source reference) (other.source reference)

variable {σ ρ τ : Type} {G : ρ → Prop} {R : σ → ρ → Prop} {nav : Navigator (Session σ)}
  {other : Navigator (Session ρ)}

section

variable (agree : nav.Agrees G R other)
include agree

theorem simulates_rootNode (root : Reference) :
    Simulates G R (nav.rootNode root) (other.rootNode root) :=
  (likening G R).rootNode agree.depth_eq agree.sources root

theorem simulates_step (trunk : Trunk) (path : List BlockAddress) (parent : Loaded)
    (index : Nat) :
    Simulates G R (nav.step trunk path parent index) (other.step trunk path parent index) :=
  (likening G R).step agree.depth_eq agree.sources trunk path parent index

theorem simulates_find (order : KeyOrder τ) (root : Reference) (target : τ) (how : Match) :
    Simulates G R (nav.find order root target how) (other.find order root target how) :=
  (likening G R).find agree.depth_eq agree.sources order root target how

theorem simulates_walk {visit : Bytes → Bytes → Session σ Unit}
    {visit' : Bytes → Bytes → Session ρ Unit}
    (visits : ∀ key value, Simulates G R (visit key value) (visit' key value)) (root : Reference) :
    Simulates G R (nav.walk root visit) (other.walk root visit') :=
  (likening G R).walk agree.depth_eq agree.sources visits root

end

theorem Agrees.beside (agree : nav.Agrees G R other) :
    (nav.beside (τ := τ)).Agrees (fun t => G t.1) (fun s t => R s.1 t.1 ∧ s.2 = t.2) other.beside :=
  ⟨agree.depth_eq, fun reference => (agree.sources reference).onLeft⟩

theorem simulates_walkWith (agree : nav.Agrees G R other) (root : Reference)
    (visit : Bytes → Bytes → Session τ Unit) :
    Simulates (fun t => G t.1) (fun s t => R s.1 t.1 ∧ s.2 = t.2) (nav.walkWith root visit)
      (other.walkWith root visit) :=
  simulates_walk agree.beside (fun key value => simulates_onRight (visit key value)) root

end ObjectStore.Tree.Navigator
