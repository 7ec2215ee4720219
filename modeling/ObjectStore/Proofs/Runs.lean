import ObjectStore.StoreError

/-
What sessions do from every state that has a property. The property is kept whether the session
succeeds or fails, so that it also holds of the state that a failure leaves behind.
-/
namespace ObjectStore.Session

/-- From every state with `I` the session ends in one with `I`, and its result has `P`. -/
def Run (I : σ → Prop) (x : Session σ α) (P : Except StoreError α → Prop) : Prop :=
  ∀ s, I s → I (x.perform s).2 ∧ P (x.perform s).1

/-- The result is the same from every state with `I`. -/
def Yields (I : σ → Prop) (x : Session σ α) (result : Except StoreError α) : Prop :=
  Run I x fun r => r = result

/-- What is known of the value of every run that succeeds. -/
def Ensures (I : σ → Prop) (x : Session σ α) (Q : α → Prop) : Prop :=
  Run I x fun r => ∀ a, r = .ok a → Q a

theorem perform_bind (x : Session σ α) (f : α → Session σ β) (s : σ) :
    (x >>= f).perform s = match x.perform s with
      | (.ok a, s') => (f a).perform s'
      | (.error e, s') => (.error e, s') := by
  rcases run : x.perform s with ⟨result, s'⟩
  have step : (x >>= f).perform s = ExceptT.bindCont f (x.perform s).1 (x.perform s).2 := rfl
  rw [step, run]
  cases result <;> rfl

theorem bind_of_ok {x : Session σ α} {f : α → Session σ β} {s s' : σ} {a : α}
    (run : x.perform s = (.ok a, s')) : (x >>= f).perform s = (f a).perform s' := by
  rw [perform_bind, run]

theorem bind_of_error {x : Session σ α} {f : α → Session σ β} {s s' : σ} {e : StoreError}
    (run : x.perform s = (.error e, s')) : (x >>= f).perform s = (.error e, s') := by
  rw [perform_bind, run]

theorem perform_then_pure (x : Session σ α) (b : β) (s : σ) :
    (x >>= fun _ => pure b).perform s = ((x.perform s).1.map fun _ => b, (x.perform s).2) := by
  rw [perform_bind]
  rcases x.perform s with ⟨e | a, s'⟩ <;> rfl

theorem perform_bind_ok {x : Session σ α} {f : α → Session σ β} {s s' : σ} {b : β} :
    (x >>= f).perform s = (.ok b, s') ↔
      ∃ a mid, x.perform s = (.ok a, mid) ∧ (f a).perform mid = (.ok b, s') := by
  rw [perform_bind]
  constructor
  · intro run
    rcases first : x.perform s with ⟨a | a, mid⟩
    · rw [first] at run
      cases run
    · rw [first] at run
      exact ⟨a, mid, rfl, run⟩
  · rintro ⟨a, mid, first, next⟩
    rw [first]
    exact next

theorem perform_decodedAt_ok {block : BlockAddress} {result : Except DecodeError α} {s s' : σ}
    {a : α} (run : (decodedAt block result : Session σ α).perform s = (.ok a, s')) :
    result = .ok a ∧ s' = s := by
  cases result with
  | ok b =>
    cases run
    exact ⟨rfl, rfl⟩
  | error e => cases run

theorem perform_ofExcept (result : Except StoreError α) (s : σ) :
    (ofExcept result : Session σ α).perform s = (result, s) := by
  cases result <;> rfl

theorem Run.bind {I : σ → Prop} {x : Session σ α} {f : α → Session σ β}
    {P : Except StoreError α → Prop} {Q : Except StoreError β → Prop} (first : Run I x P)
    (next : ∀ a, P (.ok a) → Run I (f a) Q) (fails : ∀ e, P (.error e) → Q (.error e)) :
    Run I (x >>= f) Q := by
  intro s hs
  obtain ⟨kept, result⟩ := first s hs
  rw [perform_bind]
  rcases run : x.perform s with ⟨result' | result', s'⟩
  · rw [run] at kept result
    exact ⟨kept, fails _ result⟩
  · rw [run] at kept result
    exact next _ result s' kept

theorem Run.weaken {I : σ → Prop} {x : Session σ α} {P Q : Except StoreError α → Prop}
    (run : Run I x P) (implies : ∀ r, P r → Q r) : Run I x Q :=
  fun s hs => ⟨(run s hs).1, implies _ (run s hs).2⟩

theorem yields_pure {I : σ → Prop} (a : α) : Yields I (pure a) (.ok a) :=
  fun _ hs => ⟨hs, rfl⟩

theorem yields_throw {I : σ → Prop} (e : StoreError) :
    Yields I (throw e : Session σ α) (.error e) :=
  fun _ hs => ⟨hs, rfl⟩

theorem Yields.bind {I : σ → Prop} {x : Session σ α} {f : α → Session σ β} {a : α}
    {result : Except StoreError β} (first : Yields I x (.ok a)) (next : Yields I (f a) result) :
    Yields I (x >>= f) result := by
  refine Run.bind first ?_ ?_
  · intro a' same
    cases same
    exact next
  · intro e same
    cases same

theorem Yields.bind_error {I : σ → Prop} {x : Session σ α} {f : α → Session σ β}
    {e : StoreError} (first : Yields I x (.error e)) : Yields I (x >>= f) (.error e) := by
  refine Run.bind first ?_ ?_
  · intro a same
    cases same
  · intro e' same
    cases same
    rfl

/-- Step by step the same as a computation that needs no state. -/
theorem Yields.bind_result {I : σ → Prop} {x : Session σ α} {f : α → Session σ β}
    {r : Except StoreError α} {g : α → Except StoreError β} (first : Yields I x r)
    (next : ∀ a, Yields I (f a) (g a)) : Yields I (x >>= f) (r >>= g) := by
  cases r with
  | error e => exact Yields.bind_error first
  | ok a => exact Yields.bind first (next a)

theorem yields_checked {I : σ → Prop} {c : Prop} [Decidable c] {e : StoreError}
    {f : α → Session σ β} {k : Session σ β} {result : Except StoreError β} (passes : ¬c)
    (rest : Yields I k result) : Yields I (if c then throw e >>= f else k) result := by
  rw [if_neg passes]
  exact rest

/-- A check that fails where it stands in front of what is left to do. -/
theorem yields_refused {I : σ → Prop} {c : Prop} [Decidable c] {e : StoreError}
    {f : α → Session σ β} {k : Session σ β} (fails : c) :
    Yields I (if c then throw e >>= f else k) (.error e) := by
  rw [if_pos fails]
  exact Yields.bind_error (yields_throw e)

theorem yields_ofExcept {I : σ → Prop} {result : Except StoreError α} {a : α}
    (known : result = .ok a) : Yields I (ofExcept result : Session σ α) (.ok a) := by
  rw [known]
  exact yields_pure a

theorem yields_result {I : σ → Prop} (result : Except StoreError α) :
    Yields I (ofExcept result : Session σ α) result := by
  cases result with
  | ok a => exact yields_pure a
  | error e => exact yields_throw e

/-- After its first step a session may go on without looking at its state. -/
theorem perform_bind_result (x : Session σ α) {f : α → Session σ β}
    {g : α → Except StoreError β} (rest : ∀ a (I : σ → Prop), Yields I (f a) (g a)) (s : σ) :
    (x >>= f).perform s = ((x.perform s).1 >>= g, (x.perform s).2) := by
  rw [perform_bind]
  rcases x.perform s with ⟨refused | a, later⟩
  · rfl
  · obtain ⟨kept, result⟩ := rest a (· = later) later rfl
    exact Prod.ext result kept

theorem ensures_pure {I : σ → Prop} {Q : α → Prop} {a : α} (holds : Q a) :
    Ensures I (pure a) Q := by
  intro s hs
  refine ⟨hs, fun a' same => ?_⟩
  cases same
  exact holds

theorem ensures_throw {I : σ → Prop} {Q : α → Prop} (e : StoreError) :
    Ensures I (throw e : Session σ α) Q :=
  fun _ hs => ⟨hs, fun _ same => nomatch same⟩

theorem Ensures.bind {I : σ → Prop} {x : Session σ α} {f : α → Session σ β} {P : α → Prop}
    {Q : β → Prop} (first : Ensures I x P) (next : ∀ a, P a → Ensures I (f a) Q) :
    Ensures I (x >>= f) Q :=
  Run.bind first (fun a known => next a (known a rfl)) (fun _ _ _ same => nomatch same)

theorem Ensures.weaken {I : σ → Prop} {x : Session σ α} {P Q : α → Prop}
    (run : Ensures I x P) (implies : ∀ a, P a → Q a) : Ensures I x Q :=
  Run.weaken run fun _ known a same => implies a (known a same)

theorem yields_decodedAt {I : σ → Prop} (block : BlockAddress) {result : Except DecodeError α}
    {a : α} (decoded : result = .ok a) :
    Yields I (decodedAt block result : Session σ α) (.ok a) := by
  rw [decoded]
  exact yields_pure a

theorem yields_decoded {I : σ → Prop} (block : BlockAddress) (result : Except DecodeError α) :
    Yields I (decodedAt block result : Session σ α) (decodedAt block result) := by
  cases result with
  | ok a => exact yields_pure a
  | error d => exact yields_throw _

theorem ensures_ofExcept {I : σ → Prop} (result : Except StoreError α) :
    Ensures I (ofExcept result : Session σ α) fun a => result = .ok a := by
  cases result with
  | ok a => exact ensures_pure rfl
  | error e => exact ensures_throw e

theorem ensures_decodedAt {I : σ → Prop} (block : BlockAddress)
    (result : Except DecodeError α) :
    Ensures I (decodedAt block result : Session σ α) fun a => result = .ok a := by
  cases result with
  | ok a => exact ensures_pure rfl
  | error e => exact ensures_throw _

theorem ensures_checked {I : σ → Prop} {c : Prop} [Decidable c] {e : StoreError}
    {f : α → Session σ β} {k : Session σ β} {Q : β → Prop} (rest : ¬c → Ensures I k Q) :
    Ensures I (if c then throw e >>= f else k) Q := by
  by_cases h : c
  · rw [if_pos h]
    exact Ensures.bind (P := fun _ => False) (ensures_throw e) (fun _ no => no.elim)
  · rw [if_neg h]
    exact rest h

/-- What is seen of a run that leaves every state as it was. -/
theorem ensures_of_same {I : σ → Prop} {x : Session σ α} {Q : α → Prop}
    (same : ∀ s, (x.perform s).2 = s) (known : ∀ s s' a, x.perform s = (.ok a, s') → Q a) :
    Ensures I x Q := by
  intro s hs
  rcases run : x.perform s with ⟨result, s'⟩
  have unchanged := same s
  rw [run] at unchanged
  refine ⟨unchanged ▸ hs, fun a ok => ?_⟩
  cases ok
  exact known s s' a run

theorem ensures_foldlM {I : σ → Prop} {step : β → α → Session σ β} {l : List α}
    (each : ∀ b, ∀ a ∈ l, Ensures I (step b a) fun _ => True) (b : β) :
    Ensures I (l.foldlM step b) fun _ => True := by
  induction l generalizing b with
  | nil => exact ensures_pure trivial
  | cons a l ih =>
    rw [List.foldlM_cons]
    exact (each b a List.mem_cons_self).bind fun b' _ =>
      ih (fun b a mem => each b a (List.mem_cons_of_mem _ mem)) b'

theorem ensures_mapM {I : σ → Prop} {step : α → Session σ β} {l : List α}
    (each : ∀ a ∈ l, Ensures I (step a) fun _ => True) : Ensures I (l.mapM step) fun _ => True := by
  induction l with
  | nil => exact ensures_pure trivial
  | cons a l ih =>
    rw [List.mapM_cons]
    refine (each a List.mem_cons_self).bind fun b _ => ?_
    exact (ih fun a mem => each a (List.mem_cons_of_mem _ mem)).bind fun _ _ => ensures_pure trivial

theorem perform_onRight (x : Session τ α) (s : σ × τ) :
    (onRight x).perform s = ((x.perform s.2).1, (s.1, (x.perform s.2).2)) := rfl

theorem ensures_onLeft {I : σ → Prop} {x : Session σ α} {Q : α → Prop} (run : Ensures I x Q) :
    Ensures (fun s : σ × τ => I s.1) (onLeft x) Q :=
  fun s hs => run s.1 hs

theorem ensures_onRight {I : σ → Prop} (x : Session τ α) :
    Ensures (fun s : σ × τ => I s.1) (onRight x) fun _ => True :=
  fun _ hs => ⟨hs, fun _ _ => trivial⟩

end ObjectStore.Session
