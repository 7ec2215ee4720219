import ObjectStore.Proofs.CheckedTrees
import ObjectStore.Proofs.Remembered

/-
Images read on a machine. That a range lies inside the image is known before it is cut out, and
every offset that is computed lies inside the image as well.
-/
namespace ObjectStore

open Session

theorem Bytes.HoldsBlocks.size_le {image b : Bytes} {size start count : Nat}
    (held : image.HoldsBlocks size start count b) : b.size ≤ image.size := by
  have inside := held.inside
  rw [Nat.add_mul] at inside
  rw [held.length_eq]
  omega

namespace Checked

/-- Exactly the bytes asked for, copied to a buffer of that length. -/
def readAt (image : Bytes) (offset : UInt64) (len : Nat) : Fetching Bytes :=
  match Machine.checkedAdd 64 offset.toNat len with
  | none => throw (.format "read range overflows u64")
  | some stop =>
    if image.size < stop then
      throw (.format s!"read out of bounds: offset={offset} len={len} device_len={image.size}")
    else do
      let stop ← Machine.add 64 offset.toNat len
      let range ← Machine.slice image offset.toNat stop
      Machine.copy (Bytes.zeros len) range

def blocksOf (image : Bytes) (size : BlockSize) (blockCount : UInt64) : BlockSource Fetching where
  blockSize := size.bytes
  blockCount := blockCount
  readBlock := fun address => do
    let start ← ofExcept (BlockSource.offsetOf size blockCount address 1)
    readAt image start size.toNat
  readRange := fun first count => do
    let start ← ofExcept (BlockSource.offsetOf size blockCount first count.toNat)
    match Machine.checkedMul 64 size.toNat count.toNat with
    | none => throw (.format "block range length overflow")
    | some len => readAt image start len
  readBytes := fun address offset len => do
    ofExcept (BlockSource.checkPart address offset len size.bytes)
    let base ← ofExcept (BlockSource.offsetOf size blockCount address 1)
    let start ← Machine.add 64 base.toNat offset.toNat
    readAt image start.toUInt64 len.toNat

def imageSource (image : Bytes) (size : BlockSize) : Fetching (BlockSource Fetching) := do
  let remainder ← Machine.rem image.size size.toNat
  if remainder ≠ 0 then
    throw (.format (s!"image length is not block-aligned: len_bytes={image.size}" ++
      s!" block_size={size.text} remainder={remainder}"))
  let blocks ← Machine.div image.size size.toNat
  return blocksOf image size blocks.toUInt64

theorem readAt_runs (image : Bytes) (offset : UInt64) (len : Nat) :
    Runs (readAt image offset len) ((Device.ofBytes image).read offset len) := by
  have limit : Bytes.addressLimit = 2 ^ 64 := rfl
  unfold readAt Device.ofBytes Device.checkRange
  dsimp only
  by_cases fits : offset.toNat + len < 2 ^ 64
  · rw [Machine.checkedAdd_eq fits, if_neg (by omega)]
    by_cases inside : image.size < offset.toNat + len
    · simp only [if_pos inside]
      exact .refused _
    · simp only [if_neg inside, ok_bind]
      refine .carried (Machine.add_eq fits) ?_
      refine .carried (Machine.slice_eq (Nat.le_add_right _ _) (by omega)) ?_
      refine .operation (Machine.copy_eq ?_)
      rw [Bytes.size_extract_of_le (by omega), Bytes.size_zeros, Nat.add_sub_cancel_left]
  · rw [Machine.checkedAdd, if_neg fits, if_pos (by omega)]
    exact .refused _

variable {image : Bytes} {size : BlockSize}

/-- A length that is no whole number of blocks is refused without a fault as well. -/
theorem imageSource_refused (some_bytes : 0 < size.toNat) {e : StoreError}
    (refused : BlockSource.ofBytes image size = .error e) :
    (imageSource image size).run = .ok (.error e) := by
  unfold BlockSource.ofBytes BlockSource.ofDevice at refused
  dsimp only at refused
  split at refused
  · rename_i uneven
    cases refused
    change image.size % size.toNat ≠ 0 at uneven
    refine Runs.carried (Machine.rem_eq (by omega)) ?_
    rw [if_pos uneven]
    exact .refused _
  · cases refused

theorem imageSource_opened (some_bytes : 0 < size.toNat)
    {source : BlockSource (Except StoreError)}
    (opened : BlockSource.ofBytes image size = .ok source) :
    (imageSource image size).run = .ok (.ok (blocksOf image size source.blockCount)) := by
  obtain ⟨whole, -, counted, -, -⟩ := BlockSource.ofBytes_eq_ok opened
  refine Runs.carried (Machine.rem_eq (by omega)) ?_
  rw [if_neg (fun uneven => uneven whole), counted]
  exact .carried (Machine.div_eq (by omega)) (.done _)

structure Serves (disk : BlockSource Fetching) (source : BlockSource (Except StoreError)) :
    Prop where
  blockSize_eq : disk.blockSize = source.blockSize
  blockCount_eq : disk.blockCount = source.blockCount
  readBlock : ∀ address, Runs (disk.readBlock address) (source.readBlock address)
  readRange : ∀ start count, Runs (disk.readRange start count) (source.readRange start count)
  readBytes : ∀ address offset len,
    Runs (disk.readBytes address offset len) (source.readBytes address offset len)

/-- A range of blocks inside an image has an end that a word can hold. -/
theorem range_le (addressable : image.size < Bytes.addressLimit) {first : BlockAddress}
    {count : Nat} {start : UInt64}
    (found : BlockSource.offsetOf size (image.size / size.toNat).toUInt64 first count = .ok start) :
    start.toNat + size.toNat * count ≤ image.size := by
  have limit : Bytes.addressLimit = 2 ^ 64 := rfl
  obtain ⟨start_eq, inside⟩ := BlockSource.offsetOf_eq_ok found
  have few := Nat.div_mul_le_self image.size size.toNat
  have quotient := Nat.div_le_self image.size size.toNat
  have count_eq : (image.size / size.toNat).toUInt64.toNat = image.size / size.toNat :=
    Nat.mod_eq_of_lt (by omega)
  rw [count_eq] at inside
  have stop_le := Nat.mul_le_mul_right size.toNat inside
  rw [Nat.add_mul] at stop_le
  rw [start_eq, Nat.mul_comm size.toNat]
  omega

theorem blocksOf_serves (addressable : image.size < Bytes.addressLimit)
    {source : BlockSource (Except StoreError)}
    (opened : BlockSource.ofBytes image size = .ok source) :
    Serves (blocksOf image size source.blockCount) source := by
  have limit : Bytes.addressLimit = 2 ^ 64 := rfl
  unfold BlockSource.ofBytes BlockSource.ofDevice at opened
  dsimp only at opened
  split at opened
  · cases opened
  cases opened
  refine ⟨rfl, rfl, fun address => ?_, fun first count => ?_, fun address offset len => ?_⟩
  · exact (Runs.ofExcept _).bind fun start _ => readAt_runs image start _
  · refine (Runs.ofExcept _).bind fun start found => ?_
    have stop_le := range_le addressable found
    rw [Machine.checkedMul_eq (by omega)]
    exact readAt_runs image start _
  · refine (Runs.ofExcept _).bind fun _ part => (Runs.ofExcept _).bind fun base found => ?_
    have stop_le := range_le addressable found
    have part_le : offset.toNat + len.toNat ≤ size.toNat := BlockSource.checkPart_eq_ok.mp part
    have fits : base.toNat + offset.toNat < 2 ^ 64 := by omega
    have moved : (base.toNat + offset.toNat).toUInt64 = base + offset.toUInt64 := by
      apply UInt64.toNat_inj.mp
      rw [UInt64.toNat_add, UInt32.toNat_toUInt64]
      rfl
    refine .carried (Machine.add_eq fits) ?_
    rw [moved]
    exact readAt_runs image _ _

variable {m' m : Type → Type} [Monad m'] [MonadExceptOf StoreError m'] [MonadLiftT Machine m']
  [Monad m] [MonadExceptOf StoreError m]

def fetch (x : Fetching α) : m' α := do
  let result ← x.run
  ofExcept result

theorem fetch_tracks (F : Tracking StoreError m' m) {x' : Fetching α} {x : Except StoreError α}
    (runs : Runs x' x) : F.Tracks (fetch x') (ofExcept x) fun a => x = .ok a :=
  F.carried runs (F.ofExcept x)

structure Mirrors (F : Tracking StoreError m' m) (image : Bytes) (size : BlockSize)
    (disk : BlockSource m') (source : BlockSource m) : Prop where
  held : image.size < 2 ^ 63
  blockSize_eq : disk.blockSize = source.blockSize
  blockCount_eq : disk.blockCount = source.blockCount
  readBlock : ∀ address, F.Tracks (disk.readBlock address) (source.readBlock address)
    (image.HoldsBlocks size.toNat address.toNat 1)
  readRange : ∀ start count, F.Tracks (disk.readRange start count) (source.readRange start count)
    (image.HoldsBlocks size.toNat start.toNat count.toNat)
  readBytes : ∀ address offset len, F.Tracks (disk.readBytes address offset len)
    (source.readBytes address offset len) fun _ => True

def note (access : Access) : Running Memory Unit :=
  .plain (Session.change (Memory.note access))

/-- A source whose calls are noted. -/
def mount (disk : BlockSource Fetching) : BlockSource (Running Memory) where
  blockSize := disk.blockSize
  blockCount := disk.blockCount
  readBlock address := do
    note (.block address)
    fetch (disk.readBlock address)
  readRange start count := do
    note (.range start count)
    fetch (disk.readRange start count)
  readBytes address offset len := do
    note (.bytes address offset len)
    fetch (disk.readBytes address offset len)

theorem mount_mirrors {P : BlockAddress → Tree.Node → Prop} (held : image.size < 2 ^ 63)
    {source : BlockSource (Except StoreError)}
    (opened : BlockSource.ofBytes image size = .ok source) {disk : BlockSource Fetching}
    (serves : Serves disk source) :
    Mirrors (.sessions (Memory.Holds P)) image size (mount disk) source.remembered := by
  let F : Tracking StoreError (Running Memory) Reading := .sessions (Memory.Holds P)
  have noted : ∀ access, F.Tracks (note access) (Session.change (Memory.note access))
      fun _ => True := fun access =>
    Tracking.plain fun memory holds => ⟨holds, fun _ _ => trivial⟩
  refine ⟨held, serves.blockSize_eq, serves.blockCount_eq, fun address => ?_,
    fun start count => ?_, fun address offset len => ?_⟩
  · refine F.bind (noted _) fun _ _ => ?_
    exact F.weaken (fetch_tracks F (serves.readBlock address)) fun b read =>
      BlockSource.readBlock_holds opened read
  · refine F.bind (noted _) fun _ _ => ?_
    exact F.weaken (fetch_tracks F (serves.readRange start count)) fun b read =>
      BlockSource.readRange_holds opened read
  · refine F.bind (noted _) fun _ _ => ?_
    exact F.weaken (fetch_tracks F (serves.readBytes address offset len)) fun _ _ => trivial

end Checked

end ObjectStore
