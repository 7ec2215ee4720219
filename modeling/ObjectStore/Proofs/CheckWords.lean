import ObjectStore.Proofs.FletcherSums
import ObjectStore.Proofs.Outcomes

/-
The check words of Fletcher's checksum. Behind the data that they were computed for they bring
both sums to nothing, and no other words from one to the modulus do. Neither of them is ever
zero, so what stores a zero for one of them does not verify.
-/
namespace ObjectStore.Fletcher

def lowHalf (v : UInt64) : UInt32 := v.toUInt32
def highHalf (v : UInt64) : UInt32 := (v >>> 32).toUInt32

def extended (e : ByteOrder) (data : Bytes) (low high : UInt32) : Bytes :=
  data ++ Bytes.ofList (e.bytesOf .four low.toUInt64) ++
    Bytes.ofList (e.bytesOf .four high.toUInt64)

def closed (e : ByteOrder) (data : Bytes) : Bytes :=
  extended e data (lowHalf (checksum e data)) (highHalf (checksum e data))

/-- Words in the range of check words that bring both sums of the extended data to nothing. -/
structure Closes (e : ByteOrder) (data : Bytes) (low high : UInt32) : Prop where
  low_ne : low ≠ 0
  high_ne : high ≠ 0
  balanced : Balanced (words e (extended e data low high))

variable {e : ByteOrder}

theorem short_words (e : ByteOrder) (b : Bytes) : ∀ w ∈ words e b, Short w := by
  intro w mem
  obtain ⟨i, -, word⟩ := List.mem_map.mp mem
  subst w
  exact Checked.toNat_wordAt_lt e b i

theorem words_eq (e : ByteOrder) (b : Bytes) : words e b
    = (List.range ((b.size + 3) / 4)).map fun i => e.field .four b (4 * i) := rfl

theorem words_append {a b : Bytes} (aligned : a.size % 4 = 0) :
    words e (a ++ b) = words e a ++ words e b := by
  have width : Width.four.bytes = 4 := rfl
  have whole : ((a ++ b).size + 3) / 4 = (a.size + 3) / 4 + (b.size + 3) / 4 := by
    rw [ByteArray.size_append]
    omega
  simp only [words_eq]
  rw [whole, List.range_add, List.map_append, List.map_map]
  congr 1
  · apply List.map_congr_left
    intro i mem
    have lt := List.mem_range.mp mem
    apply ByteOrder.field_congr
    intro j _
    exact Bytes.getPadded_append_left (by omega)
  · apply List.map_congr_left
    intro i _
    apply ByteOrder.field_congr
    intro j _
    have place : 4 * ((a.size + 3) / 4 + i) + j = a.size + (4 * i + j) := by omega
    rw [place, Bytes.getPadded_append_right]

theorem words_word (w : UInt32) :
    words e (Bytes.ofList (e.bytesOf .four w.toUInt64)) = [w.toUInt64] := by
  have length_eq : (e.bytesOf .four w.toUInt64).length = 4 := e.length_bytesOf .four _
  have stored : e.field .four (Bytes.ofList (e.bytesOf .four w.toUInt64)) 0
      = e.wordOf (e.bytesOf .four w.toUInt64) := by
    apply ByteOrder.field_of_bytes
    intro i h
    rw [Nat.zero_add, Bytes.getPadded_ofList h]
  have word : e.wordOf (e.bytesOf .four w.toUInt64) = w.toUInt64 := by
    apply UInt64.toNat_inj.mp
    rw [ByteOrder.toNat_wordOf_bytesOf]
    exact Nat.mod_eq_of_lt w.toNat_lt
  simp [words_eq, Bytes.size_ofList, length_eq, stored, word]

theorem words_extended {data : Bytes} (aligned : data.size % 4 = 0) (low high : UInt32) :
    words e (extended e data low high) = words e data ++ [low.toUInt64] ++ [high.toUInt64] := by
  have longer : (data ++ Bytes.ofList (e.bytesOf .four low.toUInt64)).size % 4 = 0 := by
    have width : Width.four.bytes = 4 := rfl
    rw [ByteArray.size_append, e.size_bytesOf]
    omega
  rw [extended, words_append longer, words_append aligned, words_word, words_word]

variable {s : Sums}

theorem toNat_lowHalf (reduced : s.Reduced) : (lowHalf s.joined).toNat = s.low.toNat := by
  have joined := reduced.toNat_joined
  have bounds := reduced.check_bounds
  rw [modulus_eq] at bounds
  rw [lowHalf, UInt64.toNat_toUInt32]
  omega

theorem toNat_highHalf (reduced : s.Reduced) : (highHalf s.joined).toNat = s.high.toNat := by
  have joined := reduced.toNat_joined
  have bounds := reduced.check_bounds
  have shifted : (s.joined >>> 32).toNat = s.joined.toNat / 2 ^ 32 := by
    rw [UInt64.toNat_shiftRight, Nat.shiftRight_eq_div_pow]
    rfl
  rw [modulus_eq] at bounds
  rw [highHalf, UInt64.toNat_toUInt32, shifted]
  omega

theorem halves_ne (reduced : s.Reduced) : lowHalf s.joined ≠ 0 ∧ highHalf s.joined ≠ 0 := by
  have low := toNat_lowHalf reduced
  have high := toNat_highHalf reduced
  have bounds := reduced.check_bounds
  constructor
  · intro zero
    rw [zero, UInt32.toNat_zero] at low
    omega
  · intro zero
    rw [zero, UInt32.toNat_zero] at high
    omega

/-- Two words from one to the modulus balance a list of words if and only if they are its check
words. -/
theorem balanced_iff_check {ws : List UInt64} (short : ∀ w ∈ ws, Short w) {low high : UInt32}
    (low_ne : low ≠ 0) (high_ne : high ≠ 0) :
    Balanced (ws ++ [low.toUInt64] ++ [high.toUInt64]) ↔
      low = lowHalf (sums ws).joined ∧ high = highHalf (sums ws).joined := by
  have reduced := Checked.sums_reduced ws
  obtain ⟨plain, running⟩ := sums_eq_totals short
  have low_eq := reduced.toNat_low
  have high_eq := reduced.toNat_high
  have := low.toNat_lt
  have := high.toNat_lt
  simp only [ne_eq, ← UInt32.toNat_inj, UInt32.toNat_zero] at low_ne high_ne
  simp only [← UInt32.toNat_inj, toNat_lowHalf reduced, toNat_highHalf reduced]
  have totals : Balanced (ws ++ [low.toUInt64] ++ [high.toUInt64]) ↔
      modulus.toNat ∣ plainTotal ws + low.toNat + high.toNat ∧
        modulus.toNat ∣ runningTotal ws + (plainTotal ws + low.toNat)
          + (plainTotal ws + low.toNat + high.toNat) := by
    constructor
    · intro balanced
      have := balanced.plain
      have := balanced.running
      simp_all only [plainTotal_concat, runningTotal_concat, UInt32.toNat_toUInt64, and_self]
    · rintro ⟨plain, running⟩
      constructor
      · simpa only [plainTotal_concat, UInt32.toNat_toUInt64] using plain
      · simpa only [plainTotal_concat, runningTotal_concat, UInt32.toNat_toUInt64] using running
  rw [totals]
  simp only [modulus_eq] at *
  omega

theorem checksum_of_balanced {b : Bytes} (balanced : Balanced (words e b)) :
    sums (words e b) = ⟨0, 0⟩ ∧ checksum e b = 0xFFFFFFFFFFFFFFFF := by
  have none := (balanced_iff (short_words e b)).mp balanced
  constructor
  · exact none
  · rw [checksum_eq, none]
    decide

theorem closes_iff {data : Bytes} (aligned : data.size % 4 = 0) {low high : UInt32}
    (low_ne : low ≠ 0) (high_ne : high ≠ 0) : Closes e data low high ↔
      low = lowHalf (checksum e data) ∧ high = highHalf (checksum e data) := by
  rw [checksum_eq, ← balanced_iff_check (short_words e data) low_ne high_ne,
    ← words_extended aligned]
  constructor
  · intro closes
    exact closes.balanced
  · intro balanced
    exact ⟨low_ne, high_ne, balanced⟩

/-- What an intact object stores has no half that is zero. -/
theorem refused_of_zero_half {object : Bytes} {stored : UInt64}
    (read : e.read64 object 0 = .ok stored) (zero : lowHalf stored = 0 ∨ highHalf stored = 0) :
    Object.verifies e object = false := by
  apply Bool.eq_false_iff.mpr
  intro verified
  obtain ⟨-, computed⟩ := (Object.verifies_iff e object).mp verified
  have same := Except.ok.inj (read.symm.trans computed)
  obtain ⟨low_ne, high_ne⟩ :=
    halves_ne (Checked.sums_reduced (words e (object.drop Object.checksumSize)))
  rw [same] at zero
  exact zero.elim low_ne high_ne

theorem read64_zeros {size : Nat} {stored : UInt64}
    (read : e.read64 (Bytes.zeros size) 0 = .ok stored) : stored = 0 := by
  unfold ByteOrder.read64 ByteOrder.read at read
  split at read
  · cases read
  · simp only [Bytes.getPadded_zeros] at read
    rw [← Except.ok.inj read]
    cases e <;> decide

theorem zeros_refused (size : Nat) : Object.verifies e (Bytes.zeros size) = false := by
  apply Bool.eq_false_iff.mpr
  intro verified
  obtain ⟨-, read⟩ := (Object.verifies_iff e _).mp verified
  have none := read64_zeros read
  rw [none] at read
  rw [refused_of_zero_half read (.inl rfl)] at verified
  cases verified

/-- The check words of data close it, they alone, and never is one of them zero. -/
theorem checkWords_close (e : ByteOrder) (data : Bytes) (aligned : data.size % 4 = 0) :
    Checked.fletcher e data = .ok (checksum e data) ∧
      Closes e data (lowHalf (checksum e data)) (highHalf (checksum e data)) ∧
      sums (words e (closed e data)) = ⟨0, 0⟩ ∧
      checksum e (closed e data) = 0xFFFFFFFFFFFFFFFF ∧
      (∀ low high, Closes e data low high →
        low = lowHalf (checksum e data) ∧ high = highHalf (checksum e data)) ∧
      (∀ object stored, e.read64 object 0 = .ok stored →
        lowHalf stored = 0 ∨ highHalf stored = 0 → Object.verifies e object = false) ∧
      ∀ size, Object.verifies e (Bytes.zeros size) = false := by
  obtain ⟨low_ne, high_ne⟩ := halves_ne (Checked.sums_reduced (words e data))
  have closes := (closes_iff aligned low_ne high_ne).mpr ⟨rfl, rfl⟩
  obtain ⟨none, all_ones⟩ := checksum_of_balanced closes.balanced
  refine ⟨Checked.fletcher_eq e data, closes, none, all_ones, ?_, ?_, zeros_refused⟩
  · intro low high closes'
    exact (closes_iff aligned closes'.low_ne closes'.high_ne).mp closes'
  · intro object stored read zero
    exact refused_of_zero_half read zero

/-- One word with the value one. -/
theorem checkWords_close_one : ByteArray.size ⟨#[1, 0, 0, 0]⟩ % 4 = 0 ∧
    Closes .little ⟨#[1, 0, 0, 0]⟩ 0xFFFFFFFD 1 ∧
    closed .little ⟨#[1, 0, 0, 0]⟩ = ⟨#[1, 0, 0, 0, 0xFD, 0xFF, 0xFF, 0xFF, 1, 0, 0, 0]⟩ ∧
    checksum .little (closed .little ⟨#[1, 0, 0, 0]⟩) = 0xFFFFFFFFFFFFFFFF := by
  obtain ⟨-, closes, -, all_ones, -⟩ := checkWords_close .little ⟨#[1, 0, 0, 0]⟩ (by decide)
  have low : lowHalf (checksum .little ⟨#[1, 0, 0, 0]⟩) = 0xFFFFFFFD := by decide +kernel
  have high : highHalf (checksum .little ⟨#[1, 0, 0, 0]⟩) = 1 := by decide +kernel
  rw [low, high] at closes
  exact ⟨by decide, closes, by decide +kernel, all_ones⟩

end ObjectStore.Fletcher
