import ObjectStore.Object.Checksum
import ObjectStore.Proofs.CheckedRecords

/-
Fletcher's checksum on a machine. Both sums stay below the modulus, so that no sum of theirs
leaves a word and what is subtracted from the modulus is never greater.
-/
namespace ObjectStore

namespace Fletcher

structure Sums.Reduced (s : Sums) : Prop where
  plain_lt : s.plain.toNat < modulus.toNat
  running_lt : s.running.toNat < modulus.toNat

theorem modulus_eq : modulus.toNat = 4294967295 := rfl

theorem toNat_add_mod {a b : UInt64} (left : a.toNat < 2 ^ 32) (right : b.toNat < 2 ^ 32) :
    ((a + b) % modulus).toNat = (a.toNat + b.toNat) % modulus.toNat := by
  have whole : (a.toNat + b.toNat) % 2 ^ 64 = a.toNat + b.toNat := Nat.mod_eq_of_lt (by omega)
  rw [UInt64.toNat_mod, UInt64.toNat_add, whole]

theorem Sums.add_reduced (s : Sums) (word : UInt64) : (s.add word).Reduced where
  plain_lt := by
    rw [Sums.add, UInt64.toNat_mod]
    exact Nat.mod_lt _ (by decide)
  running_lt := by
    rw [Sums.add, UInt64.toNat_mod]
    exact Nat.mod_lt _ (by decide)

theorem Sums.Reduced.toNat_low {s : Sums} (reduced : s.Reduced) :
    s.low.toNat = modulus.toNat - (s.plain.toNat + s.running.toNat) % modulus.toNat := by
  have limit := modulus_eq
  have plain_lt := reduced.plain_lt
  have running_lt := reduced.running_lt
  have both := toNat_add_mod (a := s.plain) (b := s.running) (by omega) (by omega)
  have both_lt := Nat.mod_lt (s.plain.toNat + s.running.toNat) (y := modulus.toNat) (by omega)
  have le : (s.plain + s.running) % modulus ≤ modulus := by
    rw [UInt64.le_iff_toNat_le]
    omega
  rw [Sums.low, UInt64.toNat_sub_of_le _ _ le, both]

theorem Sums.Reduced.toNat_high {s : Sums} (reduced : s.Reduced) :
    s.high.toNat = modulus.toNat - (s.plain.toNat + s.low.toNat) % modulus.toNat := by
  have limit := modulus_eq
  have plain_lt := reduced.plain_lt
  have low_eq := reduced.toNat_low
  have both := toNat_add_mod (a := s.plain) (b := s.low) (by omega) (by omega)
  have both_lt := Nat.mod_lt (s.plain.toNat + s.low.toNat) (y := modulus.toNat) (by omega)
  have le : (s.plain + s.low) % modulus ≤ modulus := by
    rw [UInt64.le_iff_toNat_le]
    omega
  rw [Sums.high, UInt64.toNat_sub_of_le _ _ le, both]

end Fletcher

namespace Checked

open Fletcher

def accumulate (s : Sums) (word : UInt64) : Machine Sums := do
  let plain ← Machine.add 64 s.plain.toNat word.toNat
  let plain ← Machine.rem plain modulus.toNat
  let running ← Machine.add 64 s.running.toNat plain
  let running ← Machine.rem running modulus.toNat
  return ⟨plain.toUInt64, running.toUInt64⟩

def chunkWord (e : ByteOrder) (chunk : Bytes) : Machine UInt64 := do
  let first ← Machine.byteAt chunk 0
  let second ← Machine.byteAt chunk 1
  let third ← Machine.byteAt chunk 2
  let fourth ← Machine.byteAt chunk 3
  return e.wordOf [first, second, third, fourth]

/-- A partial word, copied to the front of a cleared one. -/
def tailWord (e : ByteOrder) (tail : Bytes) : Machine UInt64 := do
  let front ← Machine.slice (Bytes.zeros 4) 0 tail.size
  let front ← Machine.copy front tail
  return e.wordOf (front ++ Bytes.zeros (4 - tail.size)).data.toList

def fletcherSums (e : ByteOrder) (b : Bytes) : Machine Sums := do
  let s ← (List.range (b.size / 4)).foldlM (fun s i => do
    accumulate s (← chunkWord e (b.extract (4 * i) (4 * i + 4)))) ⟨0, 0⟩
  let tail := b.extract (4 * (b.size / 4)) b.size
  if tail.size = 0 then return s else accumulate s (← tailWord e tail)

def checkWords (s : Sums) : Machine UInt64 := do
  let both ← Machine.add 64 s.plain.toNat s.running.toNat
  let both ← Machine.rem both modulus.toNat
  let low ← Machine.sub modulus.toNat both
  let both ← Machine.add 64 s.plain.toNat low
  let both ← Machine.rem both modulus.toNat
  let high ← Machine.sub modulus.toNat both
  return (high.toUInt64 <<< 32) ||| low.toUInt64

def fletcher (e : ByteOrder) (b : Bytes) : Machine UInt64 := do
  checkWords (← fletcherSums e b)

def wordAt (e : ByteOrder) (b : Bytes) (i : Nat) : UInt64 :=
  e.wordOf [b.getPadded (4 * i), b.getPadded (4 * i + 1), b.getPadded (4 * i + 2),
    b.getPadded (4 * i + 3)]

theorem toNat_wordAt_lt (e : ByteOrder) (b : Bytes) (i : Nat) :
    (wordAt e b i).toNat < 2 ^ 32 := by
  have below := e.toNat_wordOf_lt (l := [b.getPadded (4 * i), b.getPadded (4 * i + 1),
    b.getPadded (4 * i + 2), b.getPadded (4 * i + 3)]) (Nat.le_of_ble_eq_true rfl)
  exact below

theorem accumulate_eq {s : Sums} {word : UInt64} (reduced : s.Reduced)
    (small : word.toNat < 2 ^ 32) : accumulate s word = .ok (s.add word) := by
  have limit := modulus_eq
  have plain_lt := reduced.plain_lt
  have running_lt := reduced.running_lt
  have next := (s.add_reduced word).plain_lt
  have plain_eq : (s.plain.toNat + word.toNat) % modulus.toNat = (s.add word).plain.toNat :=
    (toNat_add_mod (by omega) small).symm
  have running_eq : (s.running.toNat + (s.add word).plain.toNat) % modulus.toNat
      = (s.add word).running.toNat := (toNat_add_mod (by omega) (by omega)).symm
  unfold accumulate
  rw [Machine.add_eq (by omega), ok_bind, Machine.rem_eq (by omega), ok_bind,
    plain_eq, Machine.add_eq (by omega), ok_bind, Machine.rem_eq (by omega),
    ok_bind, running_eq, Nat.toUInt64_eq, Nat.toUInt64_eq, UInt64.ofNat_toNat,
    UInt64.ofNat_toNat]
  rfl

theorem chunkWord_eq (e : ByteOrder) {b : Bytes} {i : Nat} (fits : 4 * i + 4 ≤ b.size) :
    chunkWord e (b.extract (4 * i) (4 * i + 4)) = .ok (wordAt e b i) := by
  have size_eq : (b.extract (4 * i) (4 * i + 4)).size = 4 := by
    rw [Bytes.size_extract_of_le fits]
    omega
  have byte : ∀ j, j < 4 →
      Machine.byteAt (b.extract (4 * i) (4 * i + 4)) j = .ok (b.getPadded (4 * i + j)) := by
    intro j lt
    rw [Machine.byteAt_eq (by omega), ← Bytes.getPadded_of_lt, Bytes.getPadded_extract (by omega)]
  unfold chunkWord
  rw [byte 0 (by omega), ok_bind, byte 1 (by omega), ok_bind, byte 2 (by omega),
    ok_bind, byte 3 (by omega)]
  rfl

theorem toList_four {b : Bytes} (size_eq : b.size = 4) :
    b.data.toList = [b.getPadded 0, b.getPadded 1, b.getPadded 2, b.getPadded 3] := by
  have whole : b.extract 0 (0 + 4) = b := by
    rw [Nat.zero_add, ← size_eq, ByteArray.extract_zero_size]
  have fits : 0 + 4 ≤ b.size := by omega
  have listed := Bytes.toList_extract fits
  simp only [Nat.zero_add] at whole listed
  rw [whole] at listed
  exact listed

theorem tailWord_eq (e : ByteOrder) {b : Bytes} {i : Nat} (start : 4 * i ≤ b.size)
    (short : b.size < 4 * i + 4) :
    tailWord e (b.extract (4 * i) b.size) = .ok (wordAt e b i) := by
  have tail_size : (b.extract (4 * i) b.size).size = b.size - 4 * i :=
    Bytes.size_extract_of_le (Nat.le_refl _)
  have room : (b.extract (4 * i) b.size).size ≤ (Bytes.zeros 4).size := by
    rw [tail_size, Bytes.size_zeros]
    omega
  have filled : (b.extract (4 * i) b.size
      ++ Bytes.zeros (4 - (b.extract (4 * i) b.size).size)).size = 4 := by
    rw [ByteArray.size_append, Bytes.size_zeros]
    omega
  have byte : ∀ j, Bytes.getPadded (b.extract (4 * i) b.size
      ++ Bytes.zeros (4 - (b.extract (4 * i) b.size).size)) j = b.getPadded (4 * i + j) := by
    intro j
    rw [Bytes.getPadded_append]
    by_cases inside : j < (b.extract (4 * i) b.size).size
    · rw [if_pos inside, Bytes.getPadded_extract (by omega)]
    · rw [if_neg inside, Bytes.getPadded_zeros, Bytes.getPadded_past (by omega)]
  unfold tailWord
  rw [Machine.slice_eq (Nat.zero_le _) room, ok_bind, Machine.copy_eq, ok_bind,
    toList_four filled, byte, byte, byte, byte]
  · rfl
  · rw [Bytes.size_extract_of_le room, Nat.sub_zero]

theorem foldlM_accumulate {word' : Nat → Machine UInt64} {word : Nat → UInt64} {l : List Nat}
    (each : ∀ i ∈ l, word' i = .ok (word i)) (small : ∀ i, (word i).toNat < 2 ^ 32) {s : Sums}
    (reduced : s.Reduced) : l.foldlM (fun s i => do accumulate s (← word' i)) s
      = .ok ((l.map word).foldl Sums.add s) := by
  induction l generalizing s with
  | nil => rfl
  | cons i l ih =>
    rw [List.foldlM_cons, each i List.mem_cons_self, ok_bind,
      accumulate_eq reduced (small i), ok_bind,
      ih (fun j mem => each j (List.mem_cons_of_mem _ mem)) (s.add_reduced _)]
    rfl

theorem sums_reduced (ws : List UInt64) : (sums ws).Reduced := by
  rcases ws.eq_nil_or_concat with rfl | ⟨front, word, rfl⟩
  · exact ⟨by decide, by decide⟩
  · rw [sums, List.concat_eq_append, List.foldl_append]
    exact Sums.add_reduced _ _

theorem fletcherSums_eq (e : ByteOrder) (b : Bytes) :
    fletcherSums e b = .ok (sums (words e b)) := by
  have whole : (List.range (b.size / 4)).foldlM (fun s i => do
      accumulate s (← chunkWord e (b.extract (4 * i) (4 * i + 4)))) ⟨0, 0⟩
      = .ok (sums ((List.range (b.size / 4)).map (wordAt e b))) := by
    refine foldlM_accumulate (fun i mem => chunkWord_eq e ?_) (toNat_wordAt_lt e b)
      ⟨by decide, by decide⟩
    have := List.mem_range.mp mem
    omega
  have tail_size : (b.extract (4 * (b.size / 4)) b.size).size = b.size - 4 * (b.size / 4) :=
    Bytes.size_extract_of_le (Nat.le_refl _)
  have all : words e b = (List.range ((b.size + 3) / 4)).map (wordAt e b) := rfl
  unfold fletcherSums
  rw [whole, ok_bind, all]
  by_cases even : b.size % 4 = 0
  · have count : (b.size + 3) / 4 = b.size / 4 := by omega
    rw [if_pos (by omega), count]
    rfl
  · have count : (b.size + 3) / 4 = b.size / 4 + 1 := by omega
    rw [if_neg (by omega), tailWord_eq e (by omega) (by omega), ok_bind,
      accumulate_eq (sums_reduced _) (toNat_wordAt_lt e b _), count, List.range_succ,
      List.map_append, sums, sums, List.foldl_append]
    rfl

theorem checkWords_eq {s : Sums} (reduced : s.Reduced) :
    checkWords s = .ok ((s.high <<< 32) ||| s.low) := by
  have limit := modulus_eq
  have plain_lt := reduced.plain_lt
  have running_lt := reduced.running_lt
  have low_eq := reduced.toNat_low
  have high_eq := reduced.toNat_high
  have below : ∀ n, n % modulus.toNat ≤ modulus.toNat := fun n =>
    Nat.le_of_lt (Nat.mod_lt n (by omega))
  unfold checkWords
  rw [Machine.add_eq (by omega), ok_bind, Machine.rem_eq (by omega), ok_bind,
    Machine.sub_eq (below _), ok_bind, ← low_eq, Machine.add_eq (by omega), ok_bind,
    Machine.rem_eq (by omega), ok_bind, Machine.sub_eq (below _), ok_bind, ← high_eq,
    Nat.toUInt64_eq, Nat.toUInt64_eq, UInt64.ofNat_toNat, UInt64.ofNat_toNat]
  rfl

theorem fletcher_eq (e : ByteOrder) (b : Bytes) :
    fletcher e b = .ok (Fletcher.checksum e b) := by
  unfold fletcher
  rw [fletcherSums_eq, ok_bind, checkWords_eq (sums_reduced _)]
  rfl

def checksum (e : ByteOrder) (object : Bytes) : Decoding UInt64 := do
  ofExcept (Bytes.require object ObjectHeader.size)
  let covered ← Machine.slice object Object.checksumSize object.size
  fletcher e covered

theorem checksum_runs (e : ByteOrder) (object : Bytes) :
    Runs (checksum e object) (Object.checksum e object) := by
  refine (Runs.ofExcept (Bytes.require object ObjectHeader.size)).bind fun _ roomy => ?_
  have room : ObjectHeader.size ≤ object.size := by
    unfold Bytes.require at roomy
    split at roomy
    · cases roomy
    · omega
  have front : Object.checksumSize ≤ ObjectHeader.size := by decide
  refine .carried (Machine.slice_eq (by omega) (Nat.le_refl _)) ?_
  exact .operation (fletcher_eq e _)

def verifies (e : ByteOrder) (object : Bytes) : Machine Bool := do
  match ← (checksum e object).run with
  | .error _ => return false
  | .ok computed =>
    match ← (word e .eight object 0).run with
    | .error _ => return false
    | .ok stored => return stored == computed

theorem verifies_eq (e : ByteOrder) (object : Bytes) :
    verifies e object = .ok (Object.verifies e object) := by
  have stored_runs : (word e .eight object 0).run = .ok (e.read64 object 0) :=
    word_runs e .eight object 0
  unfold verifies Object.verifies
  rw [show (checksum e object).run = _ from checksum_runs e object, ok_bind]
  cases Object.checksum e object with
  | error err => rfl
  | ok computed =>
    simp only [stored_runs, ok_bind]
    cases e.read64 object 0 <;> rfl

section

variable {m' m : Type → Type} [Monad m'] [MonadExceptOf StoreError m'] [MonadLiftT Machine m']
  [Monad m] [MonadExceptOf StoreError m]

def verify (e : ByteOrder) (object : Bytes) (block : BlockAddress) (what : String) :
    m' Unit := do
  let sound ← verifies e object
  if sound then pure () else throw (.corrupt block s!"{what} checksum mismatch")

theorem verify_tracks (F : Tracking StoreError m' m) (e : ByteOrder) (object : Bytes)
    (block : BlockAddress) (what : String) :
    F.Tracks (verify e object block what) (Object.verify e object block what) fun _ => True := by
  unfold verify Object.verify
  refine F.carried (verifies_eq e object) ?_
  exact F.branch (fun _ => F.done trivial) fun _ => F.refused _

end

end Checked

end ObjectStore
