import Std.Data.HashMap
import ObjectStore.Object.Reference

/-
A bounded store of decoded blocks, split into shards by address. Each shard drops what it has
held longest; a store without shards holds nothing and counts nothing.
-/
namespace ObjectStore

/-- Entries by address, and their addresses with the oldest first. -/
structure Shard (α : Type) where
  entries : Std.HashMap BlockAddress α
  ages : List BlockAddress

namespace Shard

def empty : Shard α := ⟨∅, []⟩

/-- Drops the oldest entries beyond `limit`. -/
def trim (s : Shard α) (limit : Nat) : Shard α :=
  let excess := s.ages.length - limit
  ⟨(s.ages.take excess).foldl (fun entries address => entries.erase address) s.entries,
    s.ages.drop excess⟩

/-- Keeps the entry that an address already has. -/
def insert (s : Shard α) (limit : Nat) (address : BlockAddress) (a : α) : Shard α :=
  if s.entries.contains address then s
  else trim ⟨s.entries.insert address a, s.ages ++ [address]⟩ limit

end Shard

structure Cache (α : Type) where
  shards : Array (Shard α)
  /-- The most entries that one shard holds. -/
  shardLimit : Nat
  /-- The counts are words that start over behind the last one. -/
  hits : UInt64
  misses : UInt64

namespace Cache

/-- A capacity of zero gives no shards; otherwise there is at least one shard and never more
shards than entries. -/
def ofCapacity (capacity shardCount : Nat) : Cache α :=
  if capacity = 0 then ⟨#[], 0, 0, 0⟩
  else
    let count := min (max shardCount 1) capacity
    ⟨Array.replicate count Shard.empty, (capacity + count - 1) / count, 0, 0⟩

def disabled : Cache α := ofCapacity 0 0

def isEnabled (c : Cache α) : Bool := c.shards.size != 0
def shardCount (c : Cache α) : Nat := c.shards.size
def size (c : Cache α) : Nat := c.shards.foldl (fun n s => n + s.entries.size) 0
def isEmpty (c : Cache α) : Bool := c.size == 0

def shardIndex (c : Cache α) (address : BlockAddress) : Nat := address.toNat % c.shards.size

/-- Looks an address up and counts whether it was there. -/
def get (c : Cache α) (address : BlockAddress) : Option α × Cache α :=
  match c.shards[c.shardIndex address]? with
  | none => (none, c)
  | some s =>
    match s.entries[address]? with
    | some a => (some a, { c with hits := c.hits + 1 })
    | none => (none, { c with misses := c.misses + 1 })

def insert (c : Cache α) (address : BlockAddress) (a : α) : Cache α :=
  { c with shards := c.shards.modify (c.shardIndex address) (·.insert c.shardLimit address a) }

/-- Drops every entry and keeps the counts. -/
def clear (c : Cache α) : Cache α := { c with shards := c.shards.map fun _ => Shard.empty }

end Cache

end ObjectStore
