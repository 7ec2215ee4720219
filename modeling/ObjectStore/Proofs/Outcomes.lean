import ObjectStore.Object.Checksum
import ObjectStore.Superblock

/-
What is known when a chain of checks has succeeded, and what a lookup in a list finds.
-/
namespace ObjectStore

variable {ε δ α β : Type}

theorem ok_bind (a : α) (f : α → Except ε β) : (Except.ok a >>= f) = f a := rfl

theorem bind_eq_ok {x : Except ε α} {f : α → Except ε β} {b : β} :
    (x >>= f) = .ok b ↔ ∃ a, x = .ok a ∧ f a = .ok b := by
  cases x <;> simp [bind, Except.bind]

theorem bind_eq_error {x : Except ε α} {f : α → Except ε β} {e : ε} :
    (x >>= f) = .error e ↔ x = .error e ∨ ∃ a, x = .ok a ∧ f a = .error e := by
  cases x <;> simp [bind, Except.bind]

theorem guard_eq_ok {c : Prop} [Decidable c] {e : ε} {u : Unit} :
    (if c then throw e else pure () : Except ε Unit) = .ok u ↔ ¬c := by
  by_cases h : c
  · rw [if_pos h]
    exact iff_of_false (by intro same; cases same) (fun no => no h)
  · rw [if_neg h]
    exact iff_of_true rfl h

/-- A check in front of what is left to do. -/
theorem checked_eq_ok {c : Prop} [Decidable c] {e : ε} {f : α → Except ε β}
    {k : Except ε β} {b : β} : (if c then throw e >>= f else k) = .ok b ↔ ¬c ∧ k = .ok b := by
  by_cases h : c
  · rw [if_pos h]
    exact iff_of_false (by intro same; cases same) (fun both => both.1 h)
  · rw [if_neg h]
    exact ⟨fun same => ⟨h, same⟩, fun both => both.2⟩

theorem Bytes.require_eq_ok {b : Bytes} {needed : Nat} {u : Unit} :
    Bytes.require b needed = .ok u ↔ needed ≤ b.size := by
  unfold Bytes.require
  by_cases short : b.size < needed
  · simp [short]
  · simp [short]
    omega

/-- What is left to do after a choice stands behind both its branches. -/
theorem branch_bind {c : Prop} [Decidable c] (x y : Except ε α) (f : α → Except ε β) :
    (if c then x >>= f else y >>= f) = ((if c then x else y) >>= f) := by
  split
  · rfl
  · rfl

theorem mapError_eq_ok {x : Except ε α} {g : ε → δ} {a : α} :
    x.mapError g = .ok a ↔ x = .ok a := by
  cases x with
  | ok b => exact ⟨fun same => congrArg Except.ok (Except.ok.inj same),
      fun same => congrArg Except.ok (Except.ok.inj same)⟩
  | error e => exact iff_of_false (by intro same; cases same) (by intro same; cases same)

theorem decodedAt_eq_ok {block : BlockAddress} {result : Except DecodeError α} {a : α} :
    (decodedAt block result : Except StoreError α) = .ok a ↔ result = .ok a := by
  cases result <;> simp [decodedAt, pure, Except.pure, throw, throwThe, MonadExceptOf.throw]

theorem decodedAt_eq_error {block : BlockAddress} {result : Except DecodeError α} {e : StoreError} :
    (decodedAt block result : Except StoreError α) = .error e ↔
      ∃ d, result = .error d ∧ e = d.atBlock block := by
  cases result with
  | ok a => exact iff_of_false (fun same => nomatch same) fun ⟨_, same, _⟩ => nomatch same
  | error d =>
    constructor
    · intro same
      exact ⟨d, rfl, (Except.error.inj same).symm⟩
    · rintro ⟨_, same, rfl⟩
      cases same
      rfl

theorem Object.verify_eq_ok {e : ByteOrder} {b : Bytes} {block : BlockAddress} {what : String} :
    (Object.verify e b block what : Except StoreError Unit) = .ok () ↔
      Object.verifies e b = true := by
  unfold Object.verify
  by_cases verified : Object.verifies e b = true
  · rw [if_pos verified]
    exact iff_of_true rfl verified
  · rw [if_neg verified]
    exact iff_of_false (fun same => nomatch same) verified

/-- The checksum that an intact object stores is that of the bytes behind it. -/
theorem Object.verifies_iff (e : ByteOrder) (b : Bytes) : Object.verifies e b = true ↔
    ObjectHeader.size ≤ b.size ∧
      e.read64 b 0 = .ok (Fletcher.checksum e (b.drop Object.checksumSize)) := by
  unfold Object.verifies Object.checksum Bytes.require
  by_cases short : b.size < ObjectHeader.size
  · rw [if_pos short]
    constructor
    · intro no
      cases no
    · intro both
      omega
  · rw [if_neg short]
    constructor
    · intro verified
      refine ⟨by omega, ?_⟩
      cases stored : e.read64 b 0 with
      | error err => simp [stored, bind, Except.bind, pure, Except.pure] at verified
      | ok v => simpa [stored, bind, Except.bind, pure, Except.pure] using verified
    · rintro ⟨-, stored⟩
      simp [stored, bind, Except.bind, pure, Except.pure]

theorem ObjectHeader.expectCode_eq_ok {h : ObjectHeader} {code : UInt32} :
    h.expectCode code = .ok () ↔ h.typeCode = code := by
  unfold expectCode
  split
  · rename_i same
    exact iff_of_true rfl same
  · rename_i other
    exact iff_of_false (fun same => nomatch same) other

theorem BlockSize.ofWord_eq_ok {word : UInt32} {size : BlockSize}
    (made : BlockSize.ofWord word = .ok size) : size = ⟨word⟩ ∧ word ∈ BlockSize.legal := by
  unfold BlockSize.ofWord at made
  split at made
  · rename_i legal
    cases made
    exact ⟨rfl, legal⟩
  · cases made

theorem Superblock.parse_eq_ok {e : ByteOrder} {block : Bytes} {s : Superblock} :
    parse e block = .ok s ↔ codec.decode e block = .ok (containerMagic, s) ∧
      s.header.typeCode = TypeWord.containerSuperblock ∧ s.blockSize ∈ BlockSize.legal ∧
      s.maxVolumes.toNat ≤ volumeSlots := by
  rw [parse, bind_eq_ok]
  constructor
  · rintro ⟨⟨magic, s'⟩, decoded, checked⟩
    obtain ⟨marked, checked⟩ := checked_eq_ok.mp checked
    obtain ⟨_, typed, checked⟩ := bind_eq_ok.mp checked
    obtain ⟨_, sized, checked⟩ := bind_eq_ok.mp checked
    obtain ⟨slotted, same⟩ := checked_eq_ok.mp checked
    cases same
    obtain rfl := Decidable.not_not.mp marked
    exact ⟨decoded, ObjectHeader.expectCode_eq_ok.mp typed, (BlockSize.ofWord_eq_ok sized).2,
      Nat.le_of_not_lt slotted⟩
  · rintro ⟨decoded, typed, legal, slotted⟩
    refine ⟨_, decoded, checked_eq_ok.mpr ⟨fun other => other rfl, ?_⟩⟩
    refine bind_eq_ok.mpr ⟨(), if_pos typed, bind_eq_ok.mpr ⟨_, if_pos legal, ?_⟩⟩
    exact checked_eq_ok.mpr ⟨Nat.not_lt.mpr slotted, rfl⟩

theorem map_eq_ok {x : Except ε α} {g : α → β} {b : β} :
    x.map g = .ok b ↔ ∃ a, x = .ok a ∧ g a = b := by
  cases x with
  | ok b =>
    constructor
    · intro same
      exact ⟨b, rfl, Except.ok.inj same⟩
    · rintro ⟨c, same, image⟩
      cases same
      exact congrArg Except.ok image
  | error e =>
    constructor
    · intro same
      cases same
    · rintro ⟨c, same, -⟩
      cases same

theorem map_eq_error {x : Except ε α} {g : α → β} {e : ε} :
    x.map g = .error e ↔ x = .error e := by
  cases x <;> simp [Except.map]

/-- The results of a list of computations that all succeed. -/
theorem mapM_eq_ok {f : α → Except ε β} {l : List α} {results : List β}
    (run : l.mapM f = .ok results) :
    results.length = l.length ∧ ∀ (i : Nat) (h : i < l.length) (h' : i < results.length),
      f l[i] = .ok results[i] := by
  induction l generalizing results with
  | nil =>
    rw [List.mapM_nil] at run
    cases run
    exact ⟨rfl, fun i h => absurd h (by simp)⟩
  | cons a l ih =>
    rw [List.mapM_cons] at run
    obtain ⟨b, head, rest⟩ := bind_eq_ok.mp run
    obtain ⟨bs, tail, same⟩ := bind_eq_ok.mp rest
    cases same
    obtain ⟨length_eq, each⟩ := ih tail
    refine ⟨by simp [length_eq], fun i h h' => ?_⟩
    cases i with
    | zero => exact head
    | succ i => exact each i (by simpa using h) (by simpa using h')

/-- The same where each element comes with its place. -/
theorem mapM_zipIdx_eq_ok {f : α × Nat → Except ε β} {l : List α} {results : List β}
    (run : l.zipIdx.mapM f = .ok results) :
    results.length = l.length ∧ ∀ (i : Nat) (h : i < l.length) (h' : i < results.length),
      f (l[i], i) = .ok results[i] := by
  obtain ⟨length_eq, each⟩ := mapM_eq_ok run
  rw [List.length_zipIdx] at length_eq
  refine ⟨length_eq, fun i h h' => ?_⟩
  have here := each i (by rwa [List.length_zipIdx]) h'
  rwa [List.getElem_zipIdx, Nat.zero_add] at here

theorem mem_of_mapM {f : α → Except ε β} {l : List α} {results : List β}
    (run : l.mapM f = .ok results) {b : β} (mem : b ∈ results) : ∃ a ∈ l, f a = .ok b := by
  obtain ⟨length_eq, each⟩ := mapM_eq_ok run
  obtain ⟨i, h, same⟩ := List.getElem_of_mem mem
  refine ⟨l.get ⟨i, by omega⟩, List.getElem_mem _, ?_⟩
  rw [← same]
  exact each i (by omega) h

theorem mapM_succeeds {f : α → Except ε β} {l : List α} (each : ∀ a ∈ l, ∃ b, f a = .ok b) :
    ∃ results, l.mapM f = .ok results := by
  induction l with
  | nil => exact ⟨[], rfl⟩
  | cons a l ih =>
    obtain ⟨b, head⟩ := each a List.mem_cons_self
    obtain ⟨bs, tail⟩ := ih fun x mem => each x (List.mem_cons_of_mem _ mem)
    refine ⟨b :: bs, ?_⟩
    rw [List.mapM_cons, head, ok_bind, tail, ok_bind]
    rfl

theorem apply_eq_ok {w : Encoder Unit} {b b' : Bytes} :
    w.apply b = .ok b' ↔ w.on b = (.ok (), b') := by
  unfold Encoder.apply
  rcases run : w.on b with ⟨result | result, out⟩
  · simp
  · simp

theorem lookup_of_unique [BEq α] [LawfulBEq α] {l : List (α × β)} {a : α} {b : β}
    (mem : (a, b) ∈ l) (unique : ∀ other, (a, other) ∈ l → other = b) : l.lookup a = some b := by
  induction l with
  | nil => exact absurd mem List.not_mem_nil
  | cons first rest ih =>
    obtain ⟨key, value⟩ := first
    rw [List.lookup_cons]
    cases here : a == key with
    | true =>
      have same := beq_iff_eq.mp here
      subst same
      exact congrArg some (unique value List.mem_cons_self)
    | false =>
      refine ih ?_ fun other inRest => unique other (List.mem_cons_of_mem _ inRest)
      rcases List.mem_cons.mp mem with same | inRest
      · cases same
        rw [beq_self_eq_true] at here
        cases here
      · exact inRest

theorem lookup_of_mem [BEq α] [LawfulBEq α] {l : List (α × β)} {a : α} {b : β}
    (distinct : (l.map Prod.fst).Nodup) (mem : (a, b) ∈ l) : l.lookup a = some b := by
  apply lookup_of_unique mem
  intro other listed
  obtain ⟨i, hi, here⟩ := List.getElem_of_mem mem
  obtain ⟨j, hj, there⟩ := List.getElem_of_mem listed
  have left : i < (l.map Prod.fst).length := by rwa [List.length_map]
  have right : j < (l.map Prod.fst).length := by rwa [List.length_map]
  have keys_eq : (l.map Prod.fst)[i] = (l.map Prod.fst)[j] := by
    rw [List.getElem_map, List.getElem_map, here, there]
  have index : i = j := (List.getElem_inj distinct).mp keys_eq
  subst index
  rw [here] at there
  exact (congrArg Prod.snd there).symm

end ObjectStore
