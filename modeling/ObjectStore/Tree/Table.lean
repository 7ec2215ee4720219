import ObjectStore.Tree.Navigator

/-
Nodes held in memory: blocks by address, and the addresses of the objects that are not referred
to by address. What is handed out is decoded, but neither its checksum nor its identity is
looked at.
-/
namespace ObjectStore.Tree

structure Table where
  order : ByteOrder
  /-- Blocks by address; of two with one address the later holds. -/
  blocks : List (BlockAddress × Bytes)
  /-- Addresses by identifier; of two for one identifier the later holds. -/
  addresses : List (ObjectId × BlockAddress)

namespace Table

def empty (order : ByteOrder) : Table := ⟨order, [], []⟩

def add (t : Table) (oid : Option ObjectId) (address : BlockAddress) (block : Bytes) : Table :=
  { t with
    blocks := (address, block) :: t.blocks
    addresses := match oid with
      | some oid => (oid, address) :: t.addresses
      | none => t.addresses }

def addressOf (t : Table) : Reference → Option BlockAddress
  | .physical address => some address
  | reference => t.addresses.lookup reference.oid

def read (t : Table) (reference : Reference) : Except StoreError Loaded := do
  match t.addressOf reference with
  | none => throw (.keyNotFound reference.text)
  | some address =>
    match t.blocks.lookup address with
    | none => throw (.outOfRange address 0)
    | some block => return ⟨address, ← decodedAt address (Node.parse t.order block)⟩

/-- The table as a source that remembers, newest first, what it was asked for. -/
def source (t : Table) (reference : Reference) : Session (List Reference) Loaded := do
  Session.change (reference :: ·)
  ofExcept (t.read reference)

end Table

end ObjectStore.Tree
