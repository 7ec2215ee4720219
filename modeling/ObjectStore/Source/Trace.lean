import ObjectStore.Source.BlockSource

/-
Sources that tell what is asked of them, and sources that misbehave in ways a reader has to
survive.
-/
namespace ObjectStore

inductive Access where
  | block (address : BlockAddress)
  | range (start : BlockAddress) (count : UInt32)
  | bytes (address : BlockAddress) (offset len : UInt32)
  deriving DecidableEq, Repr

def Access.text : Access → String
  | .block address => s!"block {address}"
  | .range start count => s!"range {start}+{count}"
  | .bytes address offset len => s!"bytes {address}@{offset}+{len}"

/-- How a source departs from the device it serves. -/
structure Faults where
  /-- A block comes back with no more than this many bytes. -/
  truncate : Option Nat
  /-- Calls that start at one of these blocks fail. -/
  failing : List BlockAddress
  /-- The block size that the source claims in place of the true one. -/
  claimedSize : Option UInt32
  deriving DecidableEq

namespace BlockSource

def traced [Monad m] [MonadExceptOf StoreError m] (note : Access → m Unit)
    (s : BlockSource (Except StoreError)) : BlockSource m where
  blockSize := s.blockSize
  blockCount := s.blockCount
  readBlock address := do
    note (.block address)
    ofExcept (s.readBlock address)
  readRange start count := do
    note (.range start count)
    ofExcept (s.readRange start count)
  readBytes address offset len := do
    note (.bytes address offset len)
    ofExcept (s.readBytes address offset len)

def withFaults (s : BlockSource (Except StoreError)) (faults : Faults) :
    BlockSource (Except StoreError) :=
  let guarded (address : BlockAddress) (result : Except StoreError Bytes) :=
    if faults.failing.contains address then .error (.io "injected") else result
  { blockSize := faults.claimedSize.getD s.blockSize
    blockCount := s.blockCount
    readBlock := fun address => guarded address ((s.readBlock address).map fun block =>
      block.extract 0 (faults.truncate.getD block.size))
    readRange := fun start count => guarded start (s.readRange start count)
    readBytes := fun address offset len => guarded address (s.readBytes address offset len) }

end BlockSource

end ObjectStore
