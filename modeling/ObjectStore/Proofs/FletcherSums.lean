import Mathlib.Algebra.GroupWithZero.Nat
import Mathlib.Data.List.Induction
import ObjectStore.Proofs.CheckedChecksum

/-
Fletcher's sums as numbers. Modulo the modulus the plain sum counts every word once and the
running sum counts it once for every word from its own place on. A difference between two runs
stays in the sums, whatever words follow, and the check words tell different sums apart.
-/
namespace ObjectStore.Fletcher

/-- Words that the sums cannot tell apart. -/
def Alike (v w : UInt64) : Prop := v.toNat % modulus.toNat = w.toNat % modulus.toNat

def Short (w : UInt64) : Prop := w.toNat < 2 ^ 32

/-- Equal or, of zero and the modulus, one and the other. -/
theorem alike_iff {v w : UInt64} (short : Short v) (short' : Short w) :
    Alike v w ↔ v = w ∨ (v = 0 ∧ w = modulus) ∨ v = modulus ∧ w = 0 := by
  have limit := modulus_eq
  simp only [Short, Alike, ← UInt64.toNat_inj, limit, UInt64.toNat_zero] at *
  omega

theorem Alike.refl (w : UInt64) : Alike w w := rfl

variable {s t : Sums} {a b a' b' w : UInt64}

theorem Sums.eq_of_toNat (plain : s.plain.toNat = t.plain.toNat)
    (running : s.running.toNat = t.running.toNat) : s = t := by
  cases s; cases t
  simp_all [UInt64.toNat_inj]

theorem Sums.Reduced.toNat_add (reduced : s.Reduced) (short : Short w) :
    (s.add w).plain.toNat = (s.plain.toNat + w.toNat) % modulus.toNat ∧
      (s.add w).running.toNat
        = (s.running.toNat + (s.plain.toNat + w.toNat)) % modulus.toNat := by
  have limit := modulus_eq
  have plain_lt := reduced.plain_lt
  have running_lt := reduced.running_lt
  have next := (s.add_reduced w).plain_lt
  have plain : (s.add w).plain.toNat = (s.plain.toNat + w.toNat) % modulus.toNat :=
    toNat_add_mod (by omega) short
  have running : (s.add w).running.toNat
      = (s.running.toNat + (s.add w).plain.toNat) % modulus.toNat :=
    toNat_add_mod (a := s.running) (b := (s.add w).plain) (by omega) (by omega)
  constructor
  · exact plain
  · rw [running, plain, Nat.add_mod_mod]

/-- A word that is taken in behind a difference does not make up for it. -/
theorem Sums.add_inj (left : s.Reduced) (right : t.Reduced) (short : Short w) :
    s.add w = t.add w ↔ s = t := by
  constructor
  · intro same
    have := left.toNat_add short
    have := right.toNat_add short
    have := left.plain_lt
    have := left.running_lt
    have := right.plain_lt
    have := right.running_lt
    simp only [same, modulus_eq] at *
    exact Sums.eq_of_toNat (by omega) (by omega)
  · intro same
    rw [same]

theorem Sums.add_alike (reduced : s.Reduced) (short : Short a) (short' : Short a') :
    s.add a = s.add a' ↔ Alike a a' := by
  have := reduced.toNat_add short
  have := reduced.toNat_add short'
  simp only [Alike, modulus_eq] at *
  constructor
  · intro same
    simp only [same] at *
    omega
  · intro alike
    exact Sums.eq_of_toNat (by omega) (by omega)

/-- The first of two words counts once more than the second, so neither makes up for the
other. -/
theorem Sums.add_two_alike (reduced : s.Reduced) (short : Short a) (short' : Short a')
    (next : Short b) (next' : Short b') :
    (s.add a).add b = (s.add a').add b' ↔ Alike a a' ∧ Alike b b' := by
  constructor
  · intro same
    have := reduced.toNat_add short
    have := reduced.toNat_add short'
    have := (s.add_reduced a).toNat_add next
    have := (s.add_reduced a').toNat_add next'
    simp only [Alike, same, modulus_eq] at *
    omega
  · rintro ⟨first, second⟩
    rw [(Sums.add_alike reduced short short').mpr first]
    exact (Sums.add_alike (s.add_reduced a') next next').mpr second

theorem sums_concat (ws : List UInt64) (w : UInt64) : sums (ws ++ [w]) = (sums ws).add w := by
  simp [sums]

section Altered

variable {f g : Nat → UInt64}

theorem sums_range_succ (f : Nat → UInt64) (n : Nat) :
    sums ((List.range (n + 1)).map f) = (sums ((List.range n).map f)).add (f n) := by
  simp [List.range_succ, sums_concat]

theorem sums_range_congr {n : Nat} (same : ∀ i < n, f i = g i) :
    sums ((List.range n).map f) = sums ((List.range n).map g) := by
  have words : (List.range n).map f = (List.range n).map g :=
    List.map_congr_left fun i mem => same i (List.mem_range.mp mem)
  rw [words]

/-- Where two runs of words differ in two neighbours at most, the sums agree if and only if they
cannot tell the neighbours apart. -/
theorem sums_range_altered (short : ∀ i, Short (f i)) (short' : ∀ i, Short (g i)) {k : Nat}
    (same : ∀ i, i ≠ k → i ≠ k + 1 → f i = g i) (n : Nat) :
    sums ((List.range n).map f) = sums ((List.range n).map g)
      ↔ ∀ i < n, Alike (f i) (g i) := by
  have before : sums ((List.range k).map f) = sums ((List.range k).map g) :=
    sums_range_congr fun i lt => same i (by omega) (by omega)
  have alike_before : ∀ i < k, Alike (f i) (g i) := by
    intro i lt
    rw [same i (by omega) (by omega)]
    exact Alike.refl _
  induction n with
  | zero => simp
  | succ n ih =>
    have left := Checked.sums_reduced ((List.range n).map f)
    have right := Checked.sums_reduced ((List.range n).map g)
    rw [Nat.forall_lt_succ_right, sums_range_succ, sums_range_succ]
    by_cases first : n = k
    · subst n
      rw [before, Sums.add_alike right (short k) (short' k)]
      exact ⟨fun alike => ⟨alike_before, alike⟩, fun all => all.2⟩
    by_cases second : n = k + 1
    · subst n
      have start := Checked.sums_reduced ((List.range k).map g)
      rw [Nat.forall_lt_succ_right, sums_range_succ, sums_range_succ, before,
        Sums.add_two_alike start (short k) (short' k) (short (k + 1)) (short' (k + 1))]
      exact ⟨fun alike => ⟨⟨alike_before, alike.1⟩, alike.2⟩, fun all => ⟨all.1.2, all.2⟩⟩
    · rw [same n first second, Sums.add_inj left right (short' n)]
      exact ⟨fun equal => ⟨ih.mp equal, Alike.refl _⟩, fun all => ih.mpr all.1⟩

end Altered

def plainTotal (ws : List UInt64) : Nat := (ws.map UInt64.toNat).sum

/-- Every word counts once for each word from its own place on. -/
def runningTotal : List UInt64 → Nat
  | [] => 0
  | w :: ws => (ws.length + 1) * w.toNat + runningTotal ws

theorem plainTotal_concat (ws : List UInt64) (w : UInt64) :
    plainTotal (ws ++ [w]) = plainTotal ws + w.toNat := by
  simp [plainTotal]

theorem runningTotal_concat (ws : List UInt64) (w : UInt64) :
    runningTotal (ws ++ [w]) = runningTotal ws + (plainTotal ws + w.toNat) := by
  induction ws with
  | nil => simp [runningTotal, plainTotal]
  | cons v ws ih =>
    simp only [List.cons_append, runningTotal, ih, List.length_append, List.length_singleton,
      plainTotal, List.map_cons, List.sum_cons, Nat.add_mul]
    omega

theorem sums_eq_totals {ws : List UInt64} (short : ∀ w ∈ ws, Short w) :
    (sums ws).plain.toNat = plainTotal ws % modulus.toNat ∧
      (sums ws).running.toNat = runningTotal ws % modulus.toNat := by
  induction ws using List.reverseRecOn with
  | nil => exact ⟨rfl, rfl⟩
  | append_singleton ws w ih =>
    obtain ⟨plain, running⟩ := ih fun v mem => short v (by simp [mem])
    have next := (Checked.sums_reduced ws).toNat_add (short w (by simp))
    simp only [sums_concat, plainTotal_concat, runningTotal_concat, modulus_eq] at *
    omega

structure Balanced (ws : List UInt64) : Prop where
  plain : modulus.toNat ∣ plainTotal ws
  running : modulus.toNat ∣ runningTotal ws

theorem balanced_iff {ws : List UInt64} (short : ∀ w ∈ ws, Short w) :
    Balanced ws ↔ sums ws = ⟨0, 0⟩ := by
  obtain ⟨plain, running⟩ := sums_eq_totals short
  constructor
  · intro balanced
    apply Sums.eq_of_toNat
    · rw [plain]
      exact Nat.mod_eq_zero_of_dvd balanced.plain
    · rw [running]
      exact Nat.mod_eq_zero_of_dvd balanced.running
  · intro none
    rw [none] at plain running
    exact ⟨Nat.dvd_of_mod_eq_zero plain.symm, Nat.dvd_of_mod_eq_zero running.symm⟩

/-- The check words of two sums, the high one in front. -/
def Sums.joined (s : Sums) : UInt64 := (s.high <<< 32) ||| s.low

theorem checksum_eq (e : ByteOrder) (b : Bytes) : checksum e b = (sums (words e b)).joined := rfl

theorem Sums.Reduced.check_bounds (reduced : s.Reduced) :
    (1 ≤ s.low.toNat ∧ s.low.toNat ≤ modulus.toNat) ∧
      1 ≤ s.high.toNat ∧ s.high.toNat ≤ modulus.toNat := by
  have low := reduced.toNat_low
  have high := reduced.toNat_high
  simp only [modulus_eq] at *
  omega

theorem Sums.Reduced.toNat_joined (reduced : s.Reduced) :
    s.joined.toNat = s.high.toNat * 2 ^ 32 + s.low.toNat := by
  obtain ⟨⟨-, low_le⟩, -, high_le⟩ := reduced.check_bounds
  rw [modulus_eq] at low_le high_le
  have low_lt : s.low.toNat < 2 ^ 32 := by omega
  have shifted : (s.high <<< 32).toNat = 2 ^ 32 * s.high.toNat := by
    rw [UInt64.toNat_shiftLeft, Nat.shiftLeft_eq]
    simp only [UInt64.reduceToNat, Nat.reduceMod]
    omega
  -- The shift leaves the low half free, so the two are joined as they are added.
  rw [Sums.joined, UInt64.toNat_or, shifted, ← Nat.two_pow_add_eq_or_of_lt low_lt, Nat.mul_comm]

theorem Sums.joined_inj (left : s.Reduced) (right : t.Reduced) :
    s.joined = t.joined ↔ s = t := by
  constructor
  · intro same
    have joined := left.toNat_joined
    have joined' := right.toNat_joined
    have := left.check_bounds
    have := right.check_bounds
    have := left.toNat_low
    have := right.toNat_low
    have := left.toNat_high
    have := right.toNat_high
    have := left.plain_lt
    have := left.running_lt
    have := right.plain_lt
    have := right.running_lt
    rw [same] at joined
    simp only [modulus_eq] at *
    have low_eq : s.low.toNat = t.low.toNat := by omega
    have high_eq : s.high.toNat = t.high.toNat := by omega
    exact Sums.eq_of_toNat (by omega) (by omega)
  · intro same
    rw [same]

end ObjectStore.Fletcher
