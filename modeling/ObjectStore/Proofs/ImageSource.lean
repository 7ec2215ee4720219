import ObjectStore.Proofs.BuiltImage
import ObjectStore.Proofs.CheckedSources

/-
The source on an image in memory, for every request that can be made of it. What it answers is
told from the image and the request alone, and no step on the way to the answer leaves its word.
-/
namespace ObjectStore.BlockSource

variable {image : Bytes} {size : BlockSize} {source : BlockSource (Except StoreError)}

structure Answers (source : BlockSource (Except StoreError)) (image : Bytes) (size : BlockSize)
    (n : Nat) : Prop where
  count_eq : source.blockCount.toNat = n
  readBlock : ∀ p, source.readBlock p =
    if p.toNat < n then
      .ok (image.extract (p.toNat * size.toNat) ((p.toNat + 1) * size.toNat))
    else .error (.outOfRange p source.blockCount)
  readRange : ∀ p c, source.readRange p c =
    if p.toNat + c.toNat ≤ n then
      .ok (image.extract (p.toNat * size.toNat) ((p.toNat + c.toNat) * size.toNat))
    else .error (.outOfRange p source.blockCount)
  readBytes : ∀ p o l, source.readBytes p o l =
    if size.toNat < o.toNat + l.toNat then
      .error (.truncated p s!"byte range {o}+{l} exceeds block size {size.bytes}")
    else if p.toNat < n then
      .ok (image.extract (p.toNat * size.toNat + o.toNat)
        (p.toNat * size.toNat + o.toNat + l.toNat))
    else .error (.outOfRange p source.blockCount)

theorem readBytes_beyond (opened : ofBytes image size = .ok source) {p : BlockAddress}
    {o l : UInt32} (part : o.toNat + l.toNat ≤ size.toNat)
    (beyond : source.blockCount.toNat ≤ p.toNat) :
    source.readBytes p o l = .error (.outOfRange p source.blockCount) := by
  have checked : checkPart p o l size.bytes = .ok () := checkPart_eq_ok.mpr part
  rw [readBytes_eq opened, checked, ok_bind, offsetOf_beyond (by omega)]
  rfl

theorem readBytes_too_long (opened : ofBytes image size = .ok source) {p : BlockAddress}
    {o l : UInt32} (long : size.toNat < o.toNat + l.toNat) : source.readBytes p o l
      = .error (.truncated p s!"byte range {o}+{l} exceeds block size {size.bytes}") := by
  have refused : checkPart p o l size.bytes
      = .error (.truncated p s!"byte range {o}+{l} exceeds block size {size.bytes}") :=
    if_neg (Nat.not_le.mpr long)
  rw [readBytes_eq opened, refused]
  rfl

theorem answers_of_ofBytes (opened : ofBytes image size = .ok source)
    (addressable : image.size < Bytes.addressLimit) :
    source.Answers image size source.blockCount.toNat := by
  refine ⟨rfl, fun p => ?_, fun p c => ?_, fun p o l => ?_⟩
  · split
    · rename_i inside
      exact readBlock_eq opened addressable inside
    · rename_i beyond
      exact readBlock_beyond opened (Nat.le_of_not_lt beyond)
  · split
    · rename_i inside
      exact readRange_eq opened addressable inside
    · rename_i beyond
      exact readRange_beyond opened (Nat.lt_of_not_le beyond)
  · split
    · rename_i long
      exact readBytes_too_long opened long
    · rename_i short
      have part : o.toNat + l.toNat ≤ size.toNat := Nat.le_of_not_lt short
      split
      · rename_i inside
        have block := readBlock_eq opened addressable inside
        rw [readBytes_of_readBlock opened block part, Bytes.blocks, ByteArray.extract_extract,
          Nat.add_mul, Nat.one_mul]
        congr 2
        omega
      · rename_i beyond
        exact readBytes_beyond opened part (Nat.le_of_not_lt beyond)

theorem ofBytes_ok_iff : (∃ source, ofBytes image size = .ok source) ↔ size.toNat ∣ image.size := by
  constructor
  · rintro ⟨source, opened⟩
    exact Nat.dvd_of_mod_eq_zero (ofBytes_eq_ok opened).1
  · intro whole
    have even := Nat.mod_eq_zero_of_dvd whole
    exact ⟨_, if_neg fun uneven => uneven even⟩

/-- A source is made of exactly the images that are whole blocks, and answers every request by the
bytes asked for, or by an error that says what is wrong with the request. A machine with 64-bit
addresses gets the same answers without a fault. -/
theorem ofBytes_exact {word : UInt32} (legal : BlockSize.ofWord word = .ok size)
    (addressable : image.size < Bytes.addressLimit) :
    ((∃ source, ofBytes image size = .ok source) ↔ size.toNat ∣ image.size) ∧
    (∀ e, ofBytes image size = .error e → (Checked.imageSource image size).run = .ok (.error e)) ∧
    ∀ source, ofBytes image size = .ok source → ∃ n, n * size.toNat = image.size ∧
      source.Answers image size n ∧
      ∃ disk, (Checked.imageSource image size).run = .ok (.ok disk) ∧
        Checked.Serves disk source := by
  obtain ⟨rfl, listed⟩ := BlockSize.ofWord_eq_ok legal
  have some_bytes : 0 < BlockSize.toNat ⟨word⟩ := by
    apply Nat.pos_of_ne_zero
    intro zero
    exact ne_zero_of_legal listed (UInt32.toNat_inj.mp zero)
  refine ⟨ofBytes_ok_iff, fun e refused => Checked.imageSource_refused some_bytes refused,
    fun source opened => ⟨source.blockCount.toNat, ?_, ?_, ?_⟩⟩
  · exact blockCount_mul opened addressable
  · exact answers_of_ofBytes opened addressable
  · exact ⟨_, Checked.imageSource_opened some_bytes opened,
      Checked.blocksOf_serves addressable opened⟩

/-- Two blocks: the empty range behind them is read, and nothing else there. -/
theorem ofBytes_exact_two_blocks : ∃ source, ofBytes (Bytes.zeros 8192) ⟨4096⟩ = .ok source ∧
    source.readRange 2 0 = .ok ((Bytes.zeros 8192).extract 8192 8192) ∧
    source.readBlock 2 = .error (.outOfRange 2 source.blockCount) ∧
    source.readRange 0xFFFFFFFFFFFFFFFF 1
      = .error (.outOfRange 0xFFFFFFFFFFFFFFFF source.blockCount) ∧
    source.readBytes 1 4090 6 = .ok ((Bytes.zeros 8192).extract 8186 8192) ∧
    source.readBytes 1 4090 7
      = .error (.truncated 1 "byte range 4090+7 exceeds block size 4096") := by
  have size_eq : (Bytes.zeros 8192).size = 8192 := Bytes.size_zeros _
  have width : BlockSize.toNat ⟨4096⟩ = 4096 := rfl
  have legal : BlockSize.ofWord 4096 = .ok ⟨4096⟩ := rfl
  have addressable : (Bytes.zeros 8192).size < Bytes.addressLimit := by
    rw [size_eq]
    decide
  obtain ⟨made, -, answers⟩ := ofBytes_exact legal addressable
  obtain ⟨source, opened⟩ := made.mpr (by rw [size_eq, width]; decide)
  obtain ⟨n, count, answered, -⟩ := answers source opened
  rw [size_eq, width] at count
  obtain rfl : n = 2 := by omega
  refine ⟨source, opened, ?_, ?_, ?_, ?_, ?_⟩
  · exact answered.readRange 2 0
  · exact answered.readBlock 2
  · exact answered.readRange 0xFFFFFFFFFFFFFFFF 1
  · exact answered.readBytes 1 4090 6
  · exact answered.readBytes 1 4090 7

end ObjectStore.BlockSource
