import ObjectStore.Bytes
import ObjectStore.Object.Kind

/-
Object references. Identifiers, transactions and block addresses are plain 64-bit words; the
reference says in which address space an identifier is meant.
-/
namespace ObjectStore

abbrev ObjectId := UInt64
abbrev TransactionId := UInt64
abbrev BlockAddress := UInt64

/-- Virtual and ephemeral identifiers below this one are reserved. -/
def reservedIds : UInt64 := 1024

def isReserved (oid : ObjectId) : Bool := oid < reservedIds

/-- Not older than any stored transaction. -/
def latestTransaction : TransactionId := 0xFFFFFFFFFFFFFFFF

def checkedAdd (a b : UInt64) : Option UInt64 :=
  if a.toNat + b.toNat < UInt64.size then some (a + b) else none

def checkedMul (a b : UInt64) : Option UInt64 :=
  if a.toNat * b.toNat < UInt64.size then some (a * b) else none

def idText (oid : ObjectId) : String := hexText oid.toNat

inductive Reference where
  | physical (address : BlockAddress)
  | virtual (oid : ObjectId) (xid : TransactionId)
  | ephemeral (oid : ObjectId)
  deriving DecidableEq, Repr

namespace Reference

def storage : Reference → StorageClass
  | .physical _ => .physical
  | .virtual _ _ => .virtual
  | .ephemeral _ => .ephemeral

/-- The identifier meant, which for a physical reference is its block address. -/
def oid : Reference → ObjectId
  | .physical address => address
  | .virtual oid _ => oid
  | .ephemeral oid => oid

/-- What `oid` means below an object that is referred to by `r`: the same address space, and
for virtual objects the same transaction. -/
def sibling (r : Reference) (oid : ObjectId) : Reference :=
  match r with
  | .physical _ => .physical oid
  | .virtual _ xid => .virtual oid xid
  | .ephemeral _ => .ephemeral oid

def text : Reference → String
  | .physical address => s!"physical({address})"
  | .virtual oid xid => s!"virtual({idText oid}@{xid})"
  | .ephemeral oid => s!"ephemeral({idText oid})"

end Reference

end ObjectStore
