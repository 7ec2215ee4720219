import ObjectStore.Draft.Container
import ObjectStore.Json.Form

/-
The JSON forms of references, records and options. A block size is read from its bare number,
whatever that is.
-/
namespace ObjectStore

open Form

def ByteOrder.name : ByteOrder → String
  | .little => "Little"
  | .big => "Big"

def ByteOrder.form : Form ByteOrder := names [("Little", .little), ("Big", .big)] ByteOrder.name

def StorageClass.name : StorageClass → String
  | .virtual => "Virtual"
  | .ephemeral => "Ephemeral"
  | .physical => "Physical"

def StorageClass.form : Form StorageClass :=
  names [("Virtual", .virtual), ("Ephemeral", .ephemeral), ("Physical", .physical)]
    StorageClass.name

def BlockSize.form : Form BlockSize := word32.map BlockSize.mk BlockSize.bytes

def VersionKey.form : Form VersionKey :=
  record [required "oid", required "xid"]
    (fun
      | [oid, xid] => do return ⟨← word64.read oid, ← word64.read xid⟩
      | _ => none)
    (fun k => [word64.write k.oid, word64.write k.xid])

def Reference.form : Form Reference where
  read j := do
    match ← case? j with
    | ("Physical", some value) => return .physical (← word64.read value)
    | ("Virtual", some value) =>
        let key ← VersionKey.form.read value
        return .virtual key.oid key.xid
    | ("Ephemeral", some value) => return .ephemeral (← word64.read value)
    | _ => none
  write
    | .physical address => caseOf "Physical" (word64.write address)
    | .virtual oid xid => caseOf "Virtual" (VersionKey.form.write ⟨oid, xid⟩)
    | .ephemeral oid => caseOf "Ephemeral" (word64.write oid)

def ObjectHeader.form : Form ObjectHeader :=
  record [required "checksum", required "oid", required "xid", required "type_and_flags",
      required "subtype"]
    (fun
      | [checksum, oid, xid, typeWord, subtype] => do
          return ⟨← word64.read checksum, ← word64.read oid, ← word64.read xid,
            ← word32.read typeWord, ← word32.read subtype⟩
      | _ => none)
    (fun h => [word64.write h.checksum, word64.write h.oid, word64.write h.xid,
      word32.write h.typeWord, word32.write h.subtype])

namespace Tree

def Extent.form : Form Extent :=
  record [required "off", required "len"]
    (fun
      | [off, len] => do return ⟨← word16.read off, ← word16.read len⟩
      | _ => none)
    (fun x => [word16.write x.off, word16.write x.len])

/-- The members of a slot that holds offsets alone. -/
def Slot.offsetsForm : Form (UInt16 × UInt16) :=
  record [required "key_off", required "val_off"]
    (fun
      | [key, value] => do return (← word16.read key, ← word16.read value)
      | _ => none)
    (fun p => [word16.write p.1, word16.write p.2])

/-- The members of a slot that holds lengths too. -/
def Slot.extentsForm : Form (Extent × Extent) :=
  record [required "key", required "val"]
    (fun
      | [key, value] => do return (← Extent.form.read key, ← Extent.form.read value)
      | _ => none)
    (fun p => [Extent.form.write p.1, Extent.form.write p.2])

def Slot.form : Form Slot where
  read j := do
    match ← case? j with
    | ("Fixed", some value) =>
        let (key, val) ← offsetsForm.read value
        return .fixed key val
    | ("Variable", some value) =>
        let (key, val) ← extentsForm.read value
        return .variable key val
    | _ => none
  write
    | .fixed key value => caseOf "Fixed" (offsetsForm.write (key, value))
    | .variable key value => caseOf "Variable" (extentsForm.write (key, value))

def EntrySizes.form : Form EntrySizes :=
  record [required "key_size", required "value_size"]
    (fun
      | [key, value] => do return ⟨← word32.read key, ← word32.read value⟩
      | _ => none)
    (fun s => [word32.write s.key, word32.write s.value])

def Footer.form : Form Footer :=
  record [required "flags", required "node_size", required "key_size", required "val_size",
      required "longest_key", required "longest_val", required "key_count",
      required "node_count"]
    (fun
      | [flags, node, key, value, longestKey, longestValue, keys, nodes] => do
          return ⟨← word32.read flags, ← word32.read node, ← word32.read key,
            ← word32.read value, ← word32.read longestKey, ← word32.read longestValue,
            ← word64.read keys, ← word64.read nodes⟩
      | _ => none)
    (fun f => [word32.write f.flags, word32.write f.nodeSize, word32.write f.keySize,
      word32.write f.valueSize, word32.write f.longestKey, word32.write f.longestValue,
      word64.write f.keyCount, word64.write f.nodeCount])

end Tree

def Mapping.form : Form Mapping :=
  record [required "flags", required "size", required "paddr"]
    (fun
      | [flags, size, address] => do
          return ⟨← word32.read flags, ← word32.read size, ← word64.read address⟩
      | _ => none)
    (fun v => [word32.write v.flags, word32.write v.size, word64.write v.address])

def Snapshot.form : Form Snapshot :=
  record [required "flags", required "oid"]
    (fun
      | [flags, oid] => do return ⟨← word32.read flags, ← word64.read oid⟩
      | _ => none)
    (fun s => [word32.write s.flags, word64.write s.oid])

def EphemeralMapping.form : Form EphemeralMapping :=
  record [required "object_type", required "subtype", required "size", required "fs_oid",
      required "oid", required "paddr"]
    (fun
      | [objectType, subtype, size, volume, oid, address] => do
          return ⟨← word32.read objectType, ← word32.read subtype, ← word32.read size,
            ← word64.read volume, ← word64.read oid, ← word64.read address⟩
      | _ => none)
    (fun m => [word32.write m.objectType, word32.write m.subtype, word32.write m.size,
      word64.write m.volumeOid, word64.write m.oid, word64.write m.address])

def MapBlock.form : Form MapBlock :=
  record [required "header", required "flags", required "mappings"]
    (fun
      | [header, flags, mappings] => do
          return ⟨← ObjectHeader.form.read header, ← word32.read flags,
            ← EphemeralMapping.form.list.read mappings⟩
      | _ => none)
    (fun b => [ObjectHeader.form.write b.header, word32.write b.flags,
      EphemeralMapping.form.list.write b.mappings])

def PlacedObject.form : Form PlacedObject :=
  record [required "oid", required "xid", required "paddr"]
    (fun
      | [oid, xid, address] => do
          return ⟨← word64.read oid, ← word64.read xid, ← word64.read address⟩
      | _ => none)
    (fun o => [word64.write o.oid, word64.write o.xid, word64.write o.address])

def countForm : Form Nat := below UInt64.size

def ResolverOptions.values (o : ResolverOptions) : List Json :=
  [ByteOrder.form.option.write o.order, countForm.write o.cacheCapacity,
    countForm.write o.cacheShards, word16.write o.maxTreeDepth,
    word32.option.write o.maxMapBlocks]

/-- What is left out is as in the standard options. -/
def ResolverOptions.form : Form ResolverOptions :=
  record
    ((["endian", "node_cache_capacity", "node_cache_shards", "max_tree_depth",
      "max_checkpoint_map_blocks"].zip ResolverOptions.standard.values).map fun (name, value) =>
        defaulted name value)
    (fun
      | [order, capacity, shards, depth, blocks] => do
          return ⟨← ByteOrder.form.option.read order, ← countForm.read capacity,
            ← countForm.read shards, ← word16.read depth, ← word32.option.read blocks⟩
      | _ => none)
    ResolverOptions.values

end ObjectStore
