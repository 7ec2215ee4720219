import ObjectStore.Proofs.ChainScans
import ObjectStore.Proofs.CheckedSources

/-
The ring of checkpoint descriptors on a machine. A chain is bound to a ring only when the ring
has blocks, and it is followed for no more blocks than a word can count.
-/
namespace ObjectStore

theorem MapChain.ring_nonempty {s : Superblock} {order : ByteOrder} {maxBlocks : Option UInt32}
    {c : MapChain} (bound : MapChain.ofSuperblock s order maxBlocks = .ok c) :
    c.ringBlocks ≠ 0 := by
  obtain ⟨-, some_blocks, rfl⟩ := MapChain.ofSuperblock_eq_ok_iff.mp bound
  exact some_blocks

namespace Checked

/-- The block that is so many blocks away from the start of a ring, going around. -/
def ringBlock (base : BlockAddress) (place blocks : Nat) : Machine (Option BlockAddress) := do
  let slot ← Machine.rem place blocks
  return (Machine.checkedAdd 64 base.toNat slot).map Nat.toUInt64

theorem ringBlock_eq (base : BlockAddress) {place blocks : Nat} {slot : UInt64}
    (some_blocks : blocks ≠ 0) (slot_eq : slot.toNat = place % blocks) :
    ringBlock base place blocks = .ok (checkedAdd base slot) := by
  have word : UInt64.size = 2 ^ 64 := rfl
  unfold ringBlock checkedAdd Machine.checkedAdd
  rw [Machine.rem_eq some_blocks, ok_bind, ← slot_eq, word]
  by_cases fits : base.toNat + slot.toNat < 2 ^ 64
  · have sum : (base.toNat + slot.toNat).toUInt64 = base + slot := by
      apply UInt64.toNat_inj.mp
      rw [UInt64.toNat_add]
      rfl
    rw [if_pos fits, if_pos fits, Option.map_some, sum]
    rfl
  · rw [if_neg fits, if_neg fits]
    rfl

def descBlock (s : Superblock) (slot : UInt32) : Machine (Option BlockAddress) :=
  if s.descBlocks = 0 then return none
  else ringBlock s.descBase slot.toNat s.descBlocks.toNat

theorem descBlock_eq (s : Superblock) (slot : UInt32) :
    descBlock s slot = .ok (s.descBlock slot) := by
  unfold descBlock Superblock.descBlock
  by_cases none : s.descBlocks = 0
  · rw [if_pos none, if_pos none]
    rfl
  · have some_blocks : s.descBlocks.toNat ≠ 0 := fun zero => none (UInt32.toNat_inj.mp zero)
    rw [if_neg none, if_neg none]
    apply ringBlock_eq s.descBase some_blocks
    rw [UInt32.toNat_toUInt64, UInt32.toNat_mod]

def blockAddress (c : MapChain) (i : UInt32) : Machine (Option BlockAddress) := do
  let place ← Machine.add 64 c.firstSlot.toNat i.toNat
  ringBlock c.ringBase place c.ringBlocks.toNat

theorem blockAddress_eq {c : MapChain} (ring : c.ringBlocks ≠ 0) (i : UInt32) :
    blockAddress c i = .ok (c.blockAddress i) := by
  have first_lt := c.firstSlot.toNat_lt
  have i_lt := i.toNat_lt
  have some_blocks : c.ringBlocks.toNat ≠ 0 := fun zero => ring (UInt32.toNat_inj.mp zero)
  unfold blockAddress MapChain.blockAddress
  rw [Machine.add_eq (by omega), ok_bind]
  apply ringBlock_eq c.ringBase some_blocks
  rw [UInt64.toNat_mod, UInt64.toNat_add, UInt32.toNat_toUInt64, UInt32.toNat_toUInt64,
    UInt32.toNat_toUInt64, Nat.mod_eq_of_lt (by omega : c.firstSlot.toNat + i.toNat < 2 ^ 64)]

def unterminated (c : MapChain) : Machine StoreError := do
  let first ← blockAddress c 0
  return .corrupt (first.getD c.ringBase)
    s!"checkpoint map chain has no LAST block within {c.maxBlocks} blocks"

theorem unterminated_eq {c : MapChain} (ring : c.ringBlocks ≠ 0) :
    unterminated c = .ok c.unterminated := by
  unfold unterminated
  rw [blockAddress_eq ring, ok_bind]
  rfl

/-- The number of the next block, which is a word as long as another block may be read. -/
theorem next_word {i : UInt32} (fits : i.toNat + 1 < 2 ^ 32) :
    (i.toNat + 1).toUInt32 = i + 1 ∧ (i + 1).toNat = i.toNat + 1 := by
  have value : (i + 1).toNat = i.toNat + 1 := by
    rw [UInt32.toNat_add]
    exact Nat.mod_eq_of_lt fits
  refine ⟨UInt32.toNat_inj.mp ?_, value⟩
  rw [value]
  exact Nat.mod_eq_of_lt fits

section

variable {m : Type → Type} [Monad m] [MonadExceptOf StoreError m] [MonadLiftT Machine m]

def chainBlock (c : MapChain) (source : BlockSource m) (i : UInt32) : m MapBlock := do
  match ← blockAddress c i with
  | none => throw (.outOfRange c.ringBase source.blockCount)
  | some address =>
    let block ← source.readBlock address
    verify c.order block address "checkpoint map"
    decodedAt address (mapBlock c.order block)

def resolveFrom (c : MapChain) (source : BlockSource m) (oid : ObjectId) (i : UInt32) :
    Nat → m EphemeralMapping
  | 0 => do
      let fault ← unterminated c
      throw fault
  | left + 1 => do
      let block ← chainBlock c source i
      match block.find oid with
      | some mapping => return mapping
      | none =>
        if block.isLast then throw (MapChain.absent oid)
        else do
          let next ← Machine.add 32 i.toNat 1
          resolveFrom c source oid next.toUInt32 left

def mappingsFrom (c : MapChain) (source : BlockSource m) (i : UInt32) :
    Nat → m (List EphemeralMapping)
  | 0 => do
      let fault ← unterminated c
      throw fault
  | left + 1 => do
      let block ← chainBlock c source i
      if block.isLast then return block.mappings
      else do
        let next ← Machine.add 32 i.toNat 1
        return block.mappings ++ (← mappingsFrom c source next.toUInt32 left)

end

variable {m' m : Type → Type} [Monad m'] [MonadExceptOf StoreError m'] [MonadLiftT Machine m']
  [Monad m] [MonadExceptOf StoreError m] {F : Tracking StoreError m' m} {image : Bytes}
  {size : BlockSize} {disk : BlockSource m'} {source : BlockSource m}

theorem chainBlock_tracks (mirrors : Mirrors F image size disk source) {c : MapChain}
    (ring : c.ringBlocks ≠ 0) (i : UInt32) :
    F.Tracks (chainBlock c disk i) (c.readBlock source i) fun _ => True := by
  have limit : Bytes.addressLimit = 2 ^ 64 := rfl
  have held := mirrors.held
  refine F.carried (blockAddress_eq ring i) ?_
  unfold MapChain.readBlock
  cases c.blockAddress i with
  | none =>
    rw [mirrors.blockCount_eq]
    exact F.refused _
  | some address =>
    refine F.bind (mirrors.readBlock address) fun block inside => ?_
    have block_le := inside.size_le
    refine F.bind (verify_tracks F c.order block address _) fun _ _ => ?_
    have parsed := mapBlock_runs c.order (by omega : block.size < Bytes.addressLimit)
    exact F.weaken (decodedAt_tracks F address parsed) fun _ _ => trivial

theorem resolveFrom_tracks (mirrors : Mirrors F image size disk source) {c : MapChain}
    (ring : c.ringBlocks ≠ 0) (oid : ObjectId) (left : Nat) (i : UInt32)
    (fits : i.toNat + left < 2 ^ 32) :
    F.Tracks (resolveFrom c disk oid i left) (c.resolveFrom source oid i left) fun _ => True := by
  induction left generalizing i with
  | zero => exact F.carried (unterminated_eq ring) (F.refused _)
  | succ left ih =>
    obtain ⟨next_eq, value⟩ := next_word (by omega : i.toNat + 1 < 2 ^ 32)
    refine F.bind (chainBlock_tracks mirrors ring i) fun block _ => ?_
    cases block.find oid with
    | some mapping => exact F.done trivial
    | none =>
      refine F.branch (fun _ => F.refused _) fun _ => ?_
      refine F.carried (Machine.add_eq (by omega)) ?_
      rw [next_eq]
      exact ih (i + 1) (by omega)

theorem mappingsFrom_tracks (mirrors : Mirrors F image size disk source) {c : MapChain}
    (ring : c.ringBlocks ≠ 0) (left : Nat) (i : UInt32) (fits : i.toNat + left < 2 ^ 32) :
    F.Tracks (mappingsFrom c disk i left) (c.mappingsFrom source i left) fun _ => True := by
  induction left generalizing i with
  | zero => exact F.carried (unterminated_eq ring) (F.refused _)
  | succ left ih =>
    obtain ⟨next_eq, value⟩ := next_word (by omega : i.toNat + 1 < 2 ^ 32)
    refine F.bind (chainBlock_tracks mirrors ring i) fun block _ => ?_
    refine F.branch (fun _ => F.done trivial) fun _ => ?_
    refine F.carried (Machine.add_eq (by omega)) ?_
    rw [next_eq]
    exact F.bind (ih (i + 1) (by omega)) fun rest _ => F.done trivial

/-- The first mapping of an object. -/
theorem resolve_tracks (mirrors : Mirrors F image size disk source) {c : MapChain}
    (ring : c.ringBlocks ≠ 0) (oid : ObjectId) :
    F.Tracks (resolveFrom c disk oid 0 c.maxBlocks.toNat) (c.resolve source oid) fun _ => True := by
  have few := c.maxBlocks.toNat_lt
  have first : (0 : UInt32).toNat = 0 := rfl
  exact resolveFrom_tracks mirrors ring oid _ 0 (by omega)

theorem mappings_tracks (mirrors : Mirrors F image size disk source) {c : MapChain}
    (ring : c.ringBlocks ≠ 0) :
    F.Tracks (mappingsFrom c disk 0 c.maxBlocks.toNat) (c.mappings source) fun _ => True := by
  have few := c.maxBlocks.toNat_lt
  have first : (0 : UInt32).toNat = 0 := rfl
  exact mappingsFrom_tracks mirrors ring _ 0 (by omega)

end Checked

end ObjectStore
