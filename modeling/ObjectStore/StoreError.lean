import ObjectStore.Object.Reference

/-
Why reading from a container fails. A key that is absent is an answer; a truncated or corrupt
object and a tree that is too deep are damage; the rest says what the image or its device
cannot do. A session that fails keeps its state: what was read and what was remembered on the way
to an error stays.
-/
namespace ObjectStore

inductive StoreError where
  | io (detail : String)
  | outOfRange (block blockCount : UInt64)
  | truncated (block : UInt64) (detail : String)
  | corrupt (block : UInt64) (detail : String)
  | keyNotFound (key : String)
  | treeTooDeep (root : UInt64) (limit : UInt16)
  | reservedId (oid : UInt64)
  | format (detail : String)
  | unsupported (feature : String)
  deriving DecidableEq, Repr

namespace StoreError

def message : StoreError → String
  | .io detail => s!"I/O error: {detail}"
  | .outOfRange block blockCount =>
      s!"block {block} out of range (device has {blockCount} blocks)"
  | .truncated block detail => s!"truncated object at block {block}: {detail}"
  | .corrupt block detail => s!"corrupt object at block {block}: {detail}"
  | .keyNotFound key => s!"key not found: {key}"
  | .treeTooDeep root limit => s!"tree rooted at block {root} deeper than {limit} levels"
  | .reservedId oid => s!"reserved object id {idText oid}"
  | .format detail => s!"invalid on-disk format: {detail}"
  | .unsupported feature => s!"unsupported feature: {feature}"

def isCorruption : StoreError → Bool
  | .truncated _ _ | .corrupt _ _ | .treeTooDeep _ _ => true
  | _ => false

def isNotFound : StoreError → Bool
  | .keyNotFound _ => true
  | _ => false

end StoreError

/-- A decoding error seen from the block that was being decoded. -/
def DecodeError.atBlock (e : DecodeError) (block : BlockAddress) : StoreError :=
  match e with
  | .insufficientData _ _ _ => .truncated block e.message
  | .invalidField _ _ | .integerConversion _ => .corrupt block e.message
  | .invalidMagic _ _ => .format s!"block {block}: {e.message}"

/-- Goes on with what was decoded from `block`. -/
def decodedAt [Monad m] [MonadExceptOf StoreError m] (block : BlockAddress)
    (result : Except DecodeError α) : m α :=
  match result with
  | .ok a => pure a
  | .error e => throw (e.atBlock block)

abbrev Session (σ : Type) := ExceptT StoreError (StateM σ)

namespace Session

def perform (x : Session σ α) (s : σ) : Except StoreError α × σ := x s

def change (f : σ → σ) : Session σ Unit := fun s => (.ok (), f s)

/-- The same computation, with a state of another kind behind its own. -/
def onLeft (x : Session σ α) : Session (σ × τ) α := fun s =>
  let (result, left) := x s.1
  (result, (left, s.2))

/-- The same computation, with a state of another kind in front of its own. -/
def onRight (x : Session τ α) : Session (σ × τ) α := fun s =>
  let (result, right) := x s.2
  (result, (s.1, right))

end Session

end ObjectStore
