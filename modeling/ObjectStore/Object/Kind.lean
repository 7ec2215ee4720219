/-
The type word of an object: a code in the low half, storage class and flags in the high half.
-/
namespace ObjectStore

/-- The three address spaces of objects. Virtual objects are versioned by an object map,
ephemeral ones are placed by a checkpoint, physical ones name their block. -/
inductive StorageClass where
  | virtual
  | ephemeral
  | physical
  deriving DecidableEq, Repr

namespace TypeWord

def codeMask : UInt32 := 0xFFFF
def flagsMask : UInt32 := 0xFFFF0000
def storageMask : UInt32 := 0xC0000000
def ephemeralFlag : UInt32 := 0x80000000
def physicalFlag : UInt32 := 0x40000000
def noHeaderFlag : UInt32 := 0x20000000
def encryptedFlag : UInt32 := 0x10000000

def containerSuperblock : UInt32 := 0x01
def tree : UInt32 := 0x02
def treeNode : UInt32 := 0x03
def spaceManager : UInt32 := 0x05
def objectMap : UInt32 := 0x0B
def checkpointMap : UInt32 := 0x0C
def volumeSuperblock : UInt32 := 0x0D
def snapshotTree : UInt32 := 0x13

def names : List (UInt32 × String) :=
  [(0x00, "invalid"), (0x01, "nx_superblock"), (0x02, "btree"), (0x03, "btree_node"),
   (0x05, "spaceman"), (0x06, "spaceman_cab"), (0x07, "spaceman_cib"),
   (0x08, "spaceman_bitmap"), (0x09, "spaceman_free_queue"), (0x0A, "extent_list_tree"),
   (0x0B, "omap"), (0x0C, "checkpoint_map"), (0x0D, "fs"), (0x0E, "fstree"),
   (0x0F, "blockreftree"), (0x10, "snapmetatree"), (0x11, "nx_reaper"),
   (0x12, "nx_reap_list"), (0x13, "omap_snapshot"), (0x14, "efi_jumpstart"),
   (0x15, "fusion_middle_tree"), (0x16, "nx_fusion_wbc"), (0x17, "nx_fusion_wbc_list"),
   (0x18, "er_state"), (0x19, "gbitmap"), (0x1A, "gbitmap_tree"), (0x1B, "gbitmap_block"),
   (0xFF, "test")]

def code (word : UInt32) : UInt32 := word &&& codeMask
def flags (word : UInt32) : UInt32 := word &&& flagsMask
def name (word : UInt32) : String := (names.lookup (code word)).getD "unknown"

/-- Both storage bits at once name no class. -/
def storage? (word : UInt32) : Option StorageClass :=
  let bits := word &&& storageMask
  if bits = 0 then some .virtual
  else if bits = ephemeralFlag then some .ephemeral
  else if bits = physicalFlag then some .physical
  else none

end TypeWord

def StorageClass.typeBits : StorageClass → UInt32
  | .virtual => 0
  | .ephemeral => TypeWord.ephemeralFlag
  | .physical => TypeWord.physicalFlag

def hasFlag (word flag : UInt32) : Bool := word &&& flag != 0

end ObjectStore
