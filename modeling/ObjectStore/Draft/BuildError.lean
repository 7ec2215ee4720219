import ObjectStore.Bytes
import ObjectStore.StoreError

/-
Why a draft cannot be built. A failure inside a part of a larger draft keeps its cause.
-/
namespace ObjectStore

inductive BuildError where
  | decode (cause : DecodeError)
  | store (cause : StoreError)
  /-- A quantity that its field cannot hold. -/
  | tooLarge (quantity : String)
  | footerRoom
  | tableRoom
  | keyLength (entry found expected : Nat)
  | valueLength (entry found expected : Nat)
  | valueRoom (entry : Nat)
  | entryRoom (entry : Nat)
  | storageBits
  | fanout
  | atLevel (level : Nat) (cause : BuildError)
  | payloadRoom (payload size : Nat)
  | chainLength (addresses blocks : Nat)
  | chainRoom (block mappings capacity : Nat)
  | chainBlock (block : Nat) (cause : BuildError)
  | beyondImage (block blockCount : Nat)
  | neverWritten (block : UInt64)
  | imageSize
  /-- What is to be built fits no buffer. This is not reported: the program stops. -/
  | bufferSize
  | mappingsPerBlock
  | firstTransaction
  | ephemeralRoom (limit : Nat)
  | mappingTree (cause : BuildError)
  | mappingTreeRoom
  | snapshotTree (cause : BuildError)
  | snapshotTreeRoom
  | ringRoom
  | olderRoom
  deriving DecidableEq, Repr

def BuildError.message : BuildError → String
  | .decode cause => cause.message
  | .store cause => cause.message
  | .tooLarge quantity => quantity
  | .footerRoom => "node too small for info footer"
  | .tableRoom => "table of contents overflows node"
  | .keyLength entry found expected =>
      s!"entry {entry}: key is {found} bytes, tree uses {expected}"
  | .valueLength entry found expected =>
      s!"entry {entry}: value is {found} bytes, node expects {expected}"
  | .valueRoom entry => s!"entry {entry}: values overflow node"
  | .entryRoom entry => s!"entry {entry}: keys and values collide"
  | .storageBits => "node header has both storage bits set"
  | .fanout => "fanout must be at least 2"
  | .atLevel level cause => s!"building node at level {level}: {cause.message}"
  | .payloadRoom payload size => s!"payload of {payload} bytes does not fit a {size}-byte object"
  | .chainLength addresses blocks => s!"{addresses} addresses for {blocks} checkpoint blocks"
  | .chainRoom block mappings capacity =>
      s!"checkpoint block {block} holds {mappings} mappings, capacity is {capacity}"
  | .chainBlock block cause => s!"encoding checkpoint block {block}: {cause.message}"
  | .beyondImage block blockCount => s!"block {block} beyond image of {blockCount} blocks"
  | .neverWritten block => s!"block {block} was never written"
  | .imageSize => "image size overflows usize"
  | .bufferSize => "capacity overflow"
  | .mappingsPerBlock => "mappings_per_block must be positive"
  | .firstTransaction => "xid must leave room for an older checkpoint"
  | .ephemeralRoom limit => s!"at most {limit} ephemeral objects fit the data area"
  | .mappingTree cause => s!"building omap tree: {cause.message}"
  | .mappingTreeRoom => "omap tree collides with mapped objects"
  | .snapshotTree cause => s!"building snapshot tree: {cause.message}"
  | .snapshotTreeRoom => "snapshot tree collides with mapped objects"
  | .ringRoom => "checkpoint does not fit the descriptor ring"
  | .olderRoom => "older checkpoint needs a single map block"

def Encoder.onZeros (w : Encoder Unit) (size : Nat) : Except BuildError Bytes :=
  (w.apply (Bytes.zeros size)).mapError .decode

end ObjectStore
