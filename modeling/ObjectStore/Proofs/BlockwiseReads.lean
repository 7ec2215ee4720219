import ObjectStore.Proofs.ImageSource

/-
A source on an image in memory beside the same source read block by block. A range that is read at
once is the blocks that lie in it, one behind the other; parts of a block are cut out of it. The
two differ in one thing: an empty range has no block that could be missing, wherever it lies.
-/
namespace ObjectStore.BlockSource

variable {image : Bytes} {size : BlockSize} {source : BlockSource (Except StoreError)}

theorem blocks_succ (image : Bytes) (size start count : Nat) :
    image.blocks size start (count + 1)
      = image.blocks size start 1 ++ image.blocks size (start + 1) count := by
  have first_le : start * size ≤ (start + 1) * size := Nat.mul_le_mul_right _ (by omega)
  have rest_le : (start + 1) * size ≤ (start + 1 + count) * size :=
    Nat.mul_le_mul_right _ (by omega)
  rw [Bytes.blocks, Bytes.blocks, Bytes.blocks, ByteArray.extract_append_extract,
    Nat.min_eq_left first_le, Nat.max_eq_right rest_le, Nat.add_right_comm, Nat.add_assoc]

theorem blocks_none (image : Bytes) (size start : Nat) :
    image.blocks size start 0 = ByteArray.empty := by
  rw [Bytes.blocks, Nat.add_zero, ByteArray.extract_eq_empty_iff]
  exact Nat.min_le_left _ _

section Each

variable {start : BlockAddress} {i : UInt64} {more : Nat}

/-- A loop over blocks that has not gone past the last one computes addresses that are words. -/
theorem checkedAdd_of_le {blockCount : UInt64}
    (near : i.toNat = 0 ∨ start.toNat + i.toNat ≤ blockCount.toNat) :
    ∃ address, checkedAdd start i = some address ∧ address.toNat = start.toNat + i.toNat := by
  have small : start.toNat + i.toNat < UInt64.size := by
    have start_lt := start.toNat_lt
    have count_lt := blockCount.toNat_lt
    have word : UInt64.size = 2 ^ 64 := rfl
    omega
  refine ⟨start + i, if_pos small, ?_⟩
  rw [UInt64.toNat_add]
  exact Nat.mod_eq_of_lt small

theorem toNat_next (few : i.toNat + (more + 1) < UInt64.size) : (i + 1).toNat = i.toNat + 1 := by
  have small : i.toNat + 1 < UInt64.size := by omega
  rw [UInt64.toNat_add]
  exact Nat.mod_eq_of_lt small

/-- The blocks of a range are fewer than a loop can count. -/
theorem few_blocks (c : UInt32) : (0 : UInt64).toNat + c.toNat < UInt64.size := by
  have small := c.toNat_lt
  have zero : (0 : UInt64).toNat = 0 := rfl
  have word : UInt64.size = 2 ^ 64 := rfl
  omega

theorem toNat_max (a b : UInt64) : (max a b).toNat = max a.toNat b.toNat := by
  have max_eq : max a b = if a ≤ b then b else a := rfl
  rw [max_eq, Nat.max_def]
  split
  · rename_i le
    rw [if_pos (UInt64.le_iff_toNat_le.mp le)]
  · rename_i gt
    rw [if_neg fun le => gt (UInt64.le_iff_toNat_le.mpr le)]

variable (opened : ofBytes image size = .ok source) (addressable : image.size < Bytes.addressLimit)

include opened addressable

theorem readEach_inside (before : Bytes) (few : i.toNat + more < UInt64.size)
    (inside : start.toNat + i.toNat + more ≤ source.blockCount.toNat) :
    readEach source.blockCount source.readBlock start i before more
      = .ok (before ++ image.blocks size.toNat (start.toNat + i.toNat) more) := by
  induction more generalizing i before with
  | zero =>
    rw [blocks_none, ByteArray.append_empty]
    rfl
  | succ more ih =>
    obtain ⟨address, next, address_eq⟩ := checkedAdd_of_le (.inr (Nat.le_of_add_right_le inside))
    have here : address.toNat < source.blockCount.toNat := by omega
    have read := readBlock_eq opened addressable here
    have i_eq := toNat_next few
    rw [readEach, next]
    dsimp only
    rw [read, ok_bind, ih _ (by omega) (by omega), ByteArray.append_assoc, address_eq, i_eq,
      ← Nat.add_assoc, ← blocks_succ]

/-- A loop that leaves the source stops at the first block that is not there: the one it starts at
or the one behind the last. -/
theorem readEach_beyond (before : Bytes) (few : i.toNat + more < UInt64.size)
    (beyond : source.blockCount.toNat < start.toNat + i.toNat + more) (some_block : 0 < more)
    (near : i.toNat = 0 ∨ start.toNat + i.toNat ≤ source.blockCount.toNat) :
    readEach source.blockCount source.readBlock start i before more
      = .error (.outOfRange (max start source.blockCount) source.blockCount) := by
  induction more generalizing i before with
  | zero => exact absurd some_block (Nat.lt_irrefl 0)
  | succ more ih =>
    obtain ⟨address, next, address_eq⟩ := checkedAdd_of_le near
    rw [readEach, next]
    dsimp only
    by_cases inside : address.toNat < source.blockCount.toNat
    · have i_eq := toNat_next few
      rw [readBlock_eq opened addressable inside, ok_bind]
      exact ih _ (by omega) (by omega) (by omega) (.inr (by omega))
    · have first_missing : address = max start source.blockCount :=
        UInt64.toNat_inj.mp (by rw [toNat_max]; omega)
      rw [readBlock_beyond opened (Nat.le_of_not_lt inside), first_missing]
      rfl

end Each

/-- What is cut out of a whole block is what a source reads there itself. -/
theorem readBytes_blockwise (opened : ofBytes image size = .ok source)
    (addressable : image.size < Bytes.addressLimit) (p : BlockAddress) (o l : UInt32) :
    source.blockwise.readBytes p o l = source.readBytes p o l := by
  have size_eq : source.blockSize = size.bytes := (ofBytes_eq_ok opened).2.1
  change cutBytes source.blockSize source.readBlock p o l = _
  rw [cutBytes, size_eq]
  cases checked : checkPart p o l size.bytes with
  | error e =>
    rw [readBytes_eq opened, checked]
    rfl
  | ok _ =>
    have part : o.toNat + l.toNat ≤ size.toNat := checkPart_eq_ok.mp checked
    by_cases inside : p.toNat < source.blockCount.toNat
    · have read := readBlock_eq opened addressable inside
      have whole := (readBlock_holds opened read).length_eq
      have no_less : ¬(image.blocks size.toNat p.toNat 1).size < o.toNat + l.toNat := by omega
      rw [readBytes_of_readBlock opened read part, read]
      exact if_neg no_less
    · have beyond := Nat.le_of_not_lt inside
      rw [readBytes_beyond opened part beyond, readBlock_beyond opened beyond]
      rfl

/-- A source on an image and the same source read block by block answer every request for a part of
a block alike, and every request for a range: by the same bytes, or both by a place outside, which
is the start of the range at once and the first block missing block by block. Only an empty range
that starts behind the end of the image is refused by the one and nothing to read for the other. -/
theorem blockwise_agrees (opened : ofBytes image size = .ok source)
    (addressable : image.size < Bytes.addressLimit) :
    (∀ p o l, source.blockwise.readBytes p o l = source.readBytes p o l) ∧
    (∀ p c, p.toNat + c.toNat ≤ source.blockCount.toNat → ∃ b,
      source.readRange p c = .ok b ∧ source.blockwise.readRange p c = .ok b) ∧
    ∀ p c, source.blockCount.toNat < p.toNat + c.toNat →
      source.readRange p c = .error (.outOfRange p source.blockCount) ∧
      source.blockwise.readRange p c = if c = 0 then .ok ByteArray.empty
        else .error (.outOfRange (max p source.blockCount) source.blockCount) := by
  refine ⟨fun p o l => ?_, fun p c inside => ?_, fun p c beyond => ?_⟩
  · exact readBytes_blockwise opened addressable p o l
  · refine ⟨_, readRange_eq opened addressable inside, ?_⟩
    have each := readEach_inside opened addressable (i := 0) ByteArray.empty (few_blocks c) inside
    rwa [ByteArray.empty_append] at each
  · refine ⟨readRange_beyond opened beyond, ?_⟩
    split
    · rename_i none
      rw [none]
      rfl
    · rename_i some_blocks
      have some_block : 0 < c.toNat :=
        Nat.pos_of_ne_zero fun zero => some_blocks (UInt32.toNat_inj.mp zero)
      exact readEach_beyond opened addressable (i := 0) ByteArray.empty (few_blocks c) beyond
        some_block (.inl rfl)

/-- Two blocks: a part, all of the image, and a range that leaves it behind the last block. -/
theorem blockwise_agrees_two_blocks :
    ∃ source, ofBytes (Bytes.zeros 8192) ⟨4096⟩ = .ok source ∧
      source.blockwise.readBytes 1 4090 6 = source.readBytes 1 4090 6 ∧
      (∃ b, source.readRange 0 2 = .ok b ∧ source.blockwise.readRange 0 2 = .ok b) ∧
      source.readRange 1 2 = .error (.outOfRange 1 2) ∧
      source.blockwise.readRange 1 2 = .error (.outOfRange 2 2) := by
  have size_eq : (Bytes.zeros 8192).size = 8192 := Bytes.size_zeros _
  have addressable : (Bytes.zeros 8192).size < Bytes.addressLimit := by
    rw [size_eq]
    decide
  have whole : BlockSize.toNat ⟨4096⟩ ∣ (Bytes.zeros 8192).size := by
    rw [size_eq]
    decide
  obtain ⟨source, opened⟩ := ofBytes_ok_iff.mpr whole
  obtain ⟨parts, inside, beyond⟩ := blockwise_agrees opened addressable
  have count : source.blockCount = 2 := by
    rw [(ofBytes_eq_ok opened).2.2.1, size_eq]
    rfl
  rw [count] at inside beyond
  obtain ⟨at_once, in_turn⟩ := beyond 1 2 (by decide)
  exact ⟨source, opened, parts 1 4090 6, inside 0 2 (by decide), at_once, in_turn⟩

/-- Behind the one block of an image the empty range is out of range, unless it is read block by
block. -/
theorem empty_range_differs :
    ∃ source, ofBytes (Bytes.zeros 4096) ⟨4096⟩ = .ok source ∧
      source.readRange 2 0 = .error (.outOfRange 2 1) ∧
      source.blockwise.readRange 2 0 = .ok ByteArray.empty := by
  have size_eq : (Bytes.zeros 4096).size = 4096 := Bytes.size_zeros _
  have whole : BlockSize.toNat ⟨4096⟩ ∣ (Bytes.zeros 4096).size := by
    rw [size_eq]
    decide
  obtain ⟨source, opened⟩ := ofBytes_ok_iff.mpr whole
  have count : source.blockCount = 1 := by
    rw [(ofBytes_eq_ok opened).2.2.1, size_eq]
    rfl
  have beyond : source.blockCount.toNat < (2 : BlockAddress).toNat + (0 : UInt32).toNat := by
    rw [count]
    decide
  have refused := readRange_beyond opened beyond
  rw [count] at refused
  exact ⟨source, opened, refused, rfl⟩

end ObjectStore.BlockSource
