import Mathlib.Algebra.Group.Nat.Defs
import ObjectStore.Bytes
import ObjectStore.Proofs.ResolverSteps

/-
Operations as a machine with 64-bit addresses carries them out: each of them can fail, and a
computation that makes one fail stops there. Such a computation tracks one without machine
operations when it never fails and otherwise comes to the same.
-/
namespace ObjectStore

open Session

inductive Fault where
  | overflow
  | divisionByZero
  | outOfBounds
  | lengthMismatch
  deriving DecidableEq, Repr

abbrev Machine := Except Fault

namespace Machine

/-- The sum of two words of this many bits. -/
def add (bits a b : Nat) : Machine Nat :=
  if a + b < 2 ^ bits then .ok (a + b) else .error .overflow

def sub (a b : Nat) : Machine Nat :=
  if b ≤ a then .ok (a - b) else .error .overflow

def mul (bits a b : Nat) : Machine Nat :=
  if a * b < 2 ^ bits then .ok (a * b) else .error .overflow

def div (a b : Nat) : Machine Nat :=
  if b = 0 then .error .divisionByZero else .ok (a / b)

def rem (a b : Nat) : Machine Nat :=
  if b = 0 then .error .divisionByZero else .ok (a % b)

def divCeil (bits a b : Nat) : Machine Nat := do
  let quotient ← div a b
  let rest ← rem a b
  if rest = 0 then return quotient else add bits quotient 1

def byteAt (b : Bytes) (i : Nat) : Machine UInt8 :=
  if h : i < b.size then .ok b[i] else .error .outOfBounds

def slice (b : Bytes) (start stop : Nat) : Machine Bytes :=
  if start ≤ stop ∧ stop ≤ b.size then .ok (b.extract start stop) else .error .outOfBounds

/-- Copies over the whole of a buffer, which must be as long as what is copied. -/
def copy (target source : Bytes) : Machine Bytes :=
  if source.size = target.size then .ok source else .error .lengthMismatch

/-- The sum if it is a word of this many bits. Asking never fails. -/
def checkedAdd (bits a b : Nat) : Option Nat := if a + b < 2 ^ bits then some (a + b) else none

def checkedSub (a b : Nat) : Option Nat := if b ≤ a then some (a - b) else none

def checkedMul (bits a b : Nat) : Option Nat := if a * b < 2 ^ bits then some (a * b) else none

/-- A result together with where it comes from. -/
def known (x : Machine α) : Machine { a : α // x = .ok a } :=
  match x with
  | .ok a => .ok ⟨a, rfl⟩
  | .error e => .error e

theorem add_eq {bits a b : Nat} (fits : a + b < 2 ^ bits) : add bits a b = .ok (a + b) :=
  if_pos fits

theorem eq_of_add {bits a b c : Nat} (ran : add bits a b = .ok c) : c = a + b := by
  unfold add at ran
  split at ran
  · exact (Except.ok.inj ran).symm
  · cases ran

theorem eq_of_sub {a b c : Nat} (ran : sub a b = .ok c) : c = a - b := by
  unfold sub at ran
  split at ran
  · exact (Except.ok.inj ran).symm
  · cases ran

theorem eq_of_div {a b c : Nat} (ran : div a b = .ok c) : c = a / b := by
  unfold div at ran
  split at ran
  · cases ran
  · exact (Except.ok.inj ran).symm

theorem sub_eq {a b : Nat} (le : b ≤ a) : sub a b = .ok (a - b) := if_pos le

theorem mul_eq {bits a b : Nat} (fits : a * b < 2 ^ bits) : mul bits a b = .ok (a * b) :=
  if_pos fits

theorem div_eq {a b : Nat} (nonzero : b ≠ 0) : div a b = .ok (a / b) := if_neg nonzero

theorem rem_eq {a b : Nat} (nonzero : b ≠ 0) : rem a b = .ok (a % b) := if_neg nonzero

theorem divCeil_eq {bits a b : Nat} (nonzero : 0 < b) (fits : a < 2 ^ bits) :
    divCeil bits a b = .ok ((a + b - 1) / b) := by
  have whole := Nat.div_add_mod a b
  unfold divCeil
  rw [div_eq (by omega), ok_bind, rem_eq (by omega), ok_bind, ceil_eq a nonzero]
  by_cases even : a % b = 0
  · rw [if_pos even, if_pos even]
    rfl
  · have small : a / b ≤ b * (a / b) := Nat.le_mul_of_pos_left _ nonzero
    rw [if_neg even, if_neg even, add_eq (by omega)]

theorem byteAt_eq {b : Bytes} {i : Nat} (inside : i < b.size) : byteAt b i = .ok b[i] :=
  dif_pos inside

theorem slice_eq {b : Bytes} {start stop : Nat} (ordered : start ≤ stop) (inside : stop ≤ b.size) :
    slice b start stop = .ok (b.extract start stop) :=
  if_pos ⟨ordered, inside⟩

theorem copy_eq {target source : Bytes} (same : source.size = target.size) :
    copy target source = .ok source :=
  if_pos same

theorem checkedAdd_eq {bits a b : Nat} (fits : a + b < 2 ^ bits) :
    checkedAdd bits a b = some (a + b) :=
  if_pos fits

theorem checkedSub_eq {a b : Nat} (le : b ≤ a) : checkedSub a b = some (a - b) := if_pos le

theorem checkedSub_none {a b : Nat} (less : a < b) : checkedSub a b = none :=
  if_neg (Nat.not_le_of_lt less)

theorem checkedMul_eq {bits a b : Nat} (fits : a * b < 2 ^ bits) :
    checkedMul bits a b = some (a * b) :=
  if_pos fits

theorem known_eq {x : Machine α} {a : α} (run : x = .ok a) : known x = .ok ⟨a, run⟩ := by
  subst run
  rfl

end Machine

abbrev Decoding := ExceptT DecodeError Machine

abbrev Fetching := ExceptT StoreError Machine

abbrev Running (σ : Type) := ExceptT StoreError (StateT σ Machine)

/-- How computations on a machine go along with plain ones: no operation fails in them, and they
come to the same results, of which something may be known. -/
structure Tracking (ε : Type) (m' m : Type → Type) [Monad m'] [MonadExceptOf ε m']
    [MonadLiftT Machine m'] [Monad m] [MonadExceptOf ε m] where
  Tracks : {α : Type} → m' α → m α → (α → Prop) → Prop
  done : ∀ {α : Type} {P : α → Prop} {a : α}, P a → Tracks (pure a) (pure a) P
  refused : ∀ {α : Type} {P : α → Prop} (e : ε), Tracks (throw e : m' α) (throw e) P
  bind : ∀ {α β : Type} {x' : m' α} {x : m α} {f' : α → m' β} {f : α → m β} {P : α → Prop}
    {Q : β → Prop}, Tracks x' x P → (∀ a, P a → Tracks (f' a) (f a) Q) →
      Tracks (x' >>= f') (x >>= f) Q
  /-- An operation that does not fail. -/
  carried : ∀ {α β : Type} {x : Machine α} {a : α} {f : α → m' β} {y : m β} {Q : β → Prop},
    x = .ok a → Tracks (f a) y Q → Tracks (liftM x >>= f) y Q
  weaken : ∀ {α : Type} {x' : m' α} {x : m α} {P Q : α → Prop}, Tracks x' x P →
    (∀ a, P a → Q a) → Tracks x' x Q
  /-- An error ends a plain computation. -/
  stops : ∀ {α β : Type} (e : ε) (f : α → m β), (throw e >>= f : m β) = throw e

namespace Tracking

section

variable {ε : Type} {m' m : Type → Type} [Monad m'] [MonadExceptOf ε m'] [MonadLiftT Machine m']
  [Monad m] [MonadExceptOf ε m] (F : Tracking ε m' m) {α β : Type} {Q : β → Prop}

theorem checked {c : Prop} [Decidable c] {e : ε} {f' : α → m' β} {f : α → m β} {k' : m' β}
    {k : m β} (rest : ¬c → F.Tracks k' k Q) :
    F.Tracks (if c then throw e >>= f' else k') (if c then throw e >>= f else k) Q := by
  by_cases h : c
  · rw [if_pos h, if_pos h]
    exact F.bind (P := fun _ => False) (F.refused e) fun _ no => no.elim
  · rw [if_neg h, if_neg h]
    exact rest h

theorem branch {c : Prop} [Decidable c] {x' y' : m' β} {x y : m β}
    (left : c → F.Tracks x' x Q) (right : ¬c → F.Tracks y' y Q) :
    F.Tracks (if c then x' else y') (if c then x else y) Q := by
  by_cases h : c
  · rw [if_pos h, if_pos h]
    exact left h
  · rw [if_neg h, if_neg h]
    exact right h

theorem ofExcept (result : Except ε α) :
    F.Tracks (ofExcept result : m' α) (ofExcept result) fun a => result = .ok a := by
  cases result with
  | ok a => exact F.done rfl
  | error e => exact F.refused e

/-- A loop over a list, with what is known before each of its rounds. -/
theorem foldlM (Inv : Nat → β → Prop) {step' : β → α → m' β} {step : β → α → m β} {l : List α}
    (each : ∀ i (h : i < l.length) b, Inv i b →
      F.Tracks (step' b l[i]) (step b l[i]) (Inv (i + 1))) {b : β} (start : Inv 0 b) :
    F.Tracks (l.foldlM step' b) (l.foldlM step b) (Inv l.length) := by
  induction l generalizing b Inv with
  | nil => exact F.done start
  | cons a l ih =>
    rw [List.foldlM_cons, List.foldlM_cons]
    have first := each 0 (Nat.zero_lt_succ _) b start
    refine F.bind first fun b' next => ?_
    exact ih (fun i => Inv (i + 1)) (fun i h b inv => each (i + 1) (Nat.succ_lt_succ h) b inv) next

theorem mapM [LawfulMonad m'] [LawfulMonad m] {f' : α → m' β} {f : α → m β} {l : List α}
    (each : ∀ a ∈ l, F.Tracks (f' a) (f a) fun _ => True) :
    F.Tracks (l.mapM f') (l.mapM f) fun _ => True := by
  induction l with
  | nil => exact F.done trivial
  | cons a l ih =>
    rw [List.mapM_cons, List.mapM_cons]
    refine F.bind (each a List.mem_cons_self) fun b _ => ?_
    refine F.bind (ih fun a mem => each a (List.mem_cons_of_mem _ mem)) fun bs _ => ?_
    exact F.done trivial

end

def results (ε : Type) : Tracking ε (ExceptT ε Machine) (Except ε) where
  Tracks x' x P := x'.run = .ok x ∧ ∀ a, x = .ok a → P a
  done {α P a} holds := ⟨rfl, fun a' same => by cases same; exact holds⟩
  refused e := ⟨rfl, fun _ same => nomatch same⟩
  bind {α β x' x f' f P Q} first next := by
    obtain ⟨run, known⟩ := first
    cases x with
    | error e =>
      refine ⟨?_, fun _ same => nomatch same⟩
      rw [ExceptT.run_bind, run]
      rfl
    | ok a =>
      obtain ⟨run', known'⟩ := next a (known a rfl)
      refine ⟨?_, known'⟩
      rw [ExceptT.run_bind, run]
      exact run'
  carried {α β x a f y Q} ran rest := by
    subst ran
    exact rest
  weaken tracks implies := ⟨tracks.1, fun a same => implies a (tracks.2 a same)⟩
  stops _ _ := rfl

end Tracking

/-- No operation fails in a computation without a state, and it comes to what a plain one does. -/
def Runs (x' : ExceptT ε Machine α) (x : Except ε α) : Prop := x'.run = .ok x

namespace Runs

open Tracking (results)

variable {ε α β : Type} {x' : ExceptT ε Machine α} {x : Except ε α} {f' : α → ExceptT ε Machine β}
  {f : α → Except ε β} {P : α → Prop}

theorem tracks (runs : Runs x' x) : (results ε).Tracks x' x fun a => x = .ok a :=
  ⟨runs, fun _ same => same⟩

theorem of_tracks (tracks : (results ε).Tracks x' x P) : Runs x' x := tracks.1

theorem bind (first : Runs x' x) (next : ∀ a, x = .ok a → Runs (f' a) (f a)) :
    Runs (x' >>= f') (x >>= f) :=
  of_tracks (P := fun _ => True) <|
    (results ε).bind first.tracks fun a known =>
      (results ε).weaken (next a known).tracks fun _ _ => trivial

theorem carried {m : Machine α} {a : α} {y : Except ε β} (ran : m = .ok a) (rest : Runs (f' a) y) :
    Runs (liftM m >>= f') y :=
  of_tracks ((results ε).carried ran rest.tracks)

/-- An operation that is the last. -/
theorem operation {m : Machine α} {a : α} (ran : m = .ok a) :
    Runs (liftM m : ExceptT ε Machine α) (.ok a) := by
  subst ran
  rfl

theorem done (a : α) : Runs (pure a : ExceptT ε Machine α) (.ok a) := rfl

theorem refused (e : ε) : Runs (throw e : ExceptT ε Machine α) (.error e) := rfl

theorem map (view : α → β) (runs : Runs x' x) : Runs (view <$> x') (x.map view) := by
  unfold Runs at runs ⊢
  rw [ExceptT.run_map, runs]
  rfl

/-- What needs no operation of the machine. -/
theorem ofExcept (x : Except ε α) : Runs (MonadExcept.ofExcept x : ExceptT ε Machine α) x := by
  cases x <;> rfl

theorem checked {c : Prop} [Decidable c] {e : ε} {g' : PUnit → ExceptT ε Machine β}
    {g : PUnit → Except ε β} {k' : ExceptT ε Machine β} {k : Except ε β}
    (rest : ¬c → Runs k' k) :
    Runs (if c then throw e >>= g' else k') (if c then throw e >>= g else k) :=
  of_tracks ((results ε).checked fun holds => (rest holds).tracks)

theorem branch {c : Prop} [Decidable c] {y' : ExceptT ε Machine α} {y : Except ε α}
    (left : c → Runs x' x) (right : ¬c → Runs y' y) :
    Runs (if c then x' else y') (if c then x else y) :=
  of_tracks (P := fun _ => True) <| (results ε).branch
    (fun holds => (results ε).weaken (left holds).tracks fun _ _ => trivial)
    fun fails => (results ε).weaken (right fails).tracks fun _ _ => trivial

theorem mapM {l : List α} (each : ∀ a ∈ l, Runs (f' a) (f a)) : Runs (l.mapM f') (l.mapM f) :=
  of_tracks <| (results ε).mapM fun a mem =>
    (results ε).weaken (each a mem).tracks fun _ _ => trivial

end Runs

def Running.perform (x : Running σ α) (s : σ) : Machine (Except StoreError α × σ) := x s

theorem Running.perform_bind (x : Running σ α) (f : α → Running σ β) (s : σ) :
    Running.perform (x >>= f) s = (Running.perform x s >>= fun pair =>
      match pair with
      | (.ok a, later) => Running.perform (f a) later
      | (.error e, later) => .ok (.error e, later)) := by
  change Except.bind (Running.perform x s) _ = Except.bind (Running.perform x s) _
  congr 1
  funext pair
  rcases pair with ⟨e | a, later⟩ <;> rfl

/-- A plain session, in which no operation is watched. -/
def Running.plain (x : Session σ α) : Running σ α := fun s => .ok (x.perform s)

namespace Tracking

/-- Sessions that start in states with a property and keep it. -/
def sessions (I : σ → Prop) : Tracking StoreError (Running σ) (Session σ) where
  Tracks x' x P := ∀ s, I s → Running.perform x' s = .ok (x.perform s) ∧ I (x.perform s).2 ∧
    ∀ a, (x.perform s).1 = .ok a → P a
  done {α P a} holds s start := ⟨rfl, start, fun a' same => by cases same; exact holds⟩
  refused e s start := ⟨rfl, start, fun _ same => nomatch same⟩
  bind {α β x' x f' f P Q} first next s start := by
    obtain ⟨run, kept, known⟩ := first s start
    rw [Running.perform_bind, run, perform_bind]
    rcases called : x.perform s with ⟨e | a, later⟩
    · rw [called] at kept
      exact ⟨rfl, kept, fun _ same => nomatch same⟩
    · rw [called] at kept known
      exact next a (known a rfl) later kept
  carried {α β x a f y Q} ran rest s start := by
    subst ran
    exact rest s start
  weaken tracks implies s start :=
    ⟨(tracks s start).1, (tracks s start).2.1,
      fun a same => implies a ((tracks s start).2.2 a same)⟩
  stops _ _ := rfl

/-- The same with a state that an error undoes. -/
def withState {ε : Type} {m' m : Type → Type} [Monad m'] [LawfulMonad m'] [MonadExceptOf ε m']
    [MonadLiftT Machine m'] [Monad m] [MonadExceptOf ε m] (F : Tracking ε m' m) (ρ : Type) :
    Tracking ε (StateT ρ m') (StateT ρ m) where
  Tracks x' x P := ∀ s, F.Tracks (x'.run s) (x.run s) fun pair => P pair.1
  done holds s := F.done holds
  refused e s := F.bind (P := fun _ => False) (F.refused e) fun _ no => no.elim
  bind first next s := F.bind (first s) fun pair known => next pair.1 known pair.2
  carried {α β x a f y Q} ran rest s := by
    have step : (liftM x >>= f : StateT ρ m' β).run s = liftM x >>= fun a => (f a).run s := by
      change (liftM x >>= fun a => pure (a, s)) >>= _ = _
      rw [bind_assoc]
      simp only [pure_bind]
      rfl
    rw [step]
    exact F.carried ran (rest s)
  weaken tracks implies s := F.weaken (tracks s) fun pair known => implies pair.1 known
  stops e f := by
    funext s
    change (throw e >>= fun a => pure (a, s)) >>= (fun pair => (f pair.1).run pair.2)
      = throw e >>= fun a => pure (a, s)
    rw [F.stops, F.stops, F.stops]

/-- What needs no state goes along beside one. -/
theorem lifted {ε : Type} {m' m : Type → Type} [Monad m'] [LawfulMonad m'] [MonadExceptOf ε m']
    [MonadLiftT Machine m'] [Monad m] [MonadExceptOf ε m] (F : Tracking ε m' m) {ρ : Type}
    {x' : m' α} {x : m α} {P : α → Prop} (tracks : F.Tracks x' x P) :
    (F.withState ρ).Tracks (liftM x' : StateT ρ m' α) (liftM x : StateT ρ m α) P :=
  fun _ => F.bind tracks fun _ known => F.done known

theorem plain {I : σ → Prop} {x : Session σ α} {P : α → Prop} (ensures : Ensures I x P) :
    (sessions I).Tracks (Running.plain x) x P :=
  fun s start => ⟨rfl, ensures s start⟩

end Tracking

end ObjectStore
