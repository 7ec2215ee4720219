import ObjectStore.Proofs.BuiltImage
import ObjectStore.Proofs.BuiltMapBlocks
import ObjectStore.Proofs.ChainScans

/-
Where the mappings come from that a checkpoint's chain leads to. A block that a scan reaches is
used if it verifies and is a map block, for whatever block and transaction its header says that
it was written; only where all such headers are right does each mapping belong to the checkpoint.
-/
namespace ObjectStore.MapChain

variable {c : MapChain} {source : BlockSource (Except StoreError)}

structure Reached (c : MapChain) (source : BlockSource (Except StoreError)) (i : Nat)
    (address : BlockAddress) (bytes : Bytes) (block : MapBlock) : Prop
    extends c.Intact source i address bytes block where
  within : i < c.maxBlocks.toNat
  earlier : ∀ j < i, ∃ address bytes block, c.Intact source j address bytes block ∧
    block.isLast = false

/-- A block that was written for where it lies, by the transaction of a superblock. -/
def Belongs (s : Superblock) (address : BlockAddress) (block : MapBlock) : Prop :=
  block.header.oid = address ∧ block.header.xid = s.header.xid

theorem Intact.unique {i : Nat} {address address' : BlockAddress} {bytes bytes' : Bytes}
    {block block' : MapBlock} (one : c.Intact source i address bytes block)
    (other : c.Intact source i address' bytes' block') : block = block' := by
  have left := readBlock_eq_ok.mpr ⟨_, _, one⟩
  rw [readBlock_eq_ok.mpr ⟨_, _, other⟩] at left
  exact (Except.ok.inj left).symm

section Scanned

variable {blocks : List MapBlock} {ending : Option StoreError} {i : Nat} {address : BlockAddress}
  {bytes : Bytes} {block : MapBlock}

theorem Scanned.none_last_before (scanned : c.Scanned source blocks ending) {j : Nat}
    (h : j + 1 < blocks.length) : blocks[j].isLast = false := by
  cases ending with
  | some e => exact scanned.stopped.none_last _ (List.getElem_mem _)
  | none =>
    obtain ⟨earlier, last, rfl, -, none_last⟩ := scanned.complete.ends_last
    rw [List.length_append, List.length_singleton] at h
    rw [List.getElem_append_left (by omega)]
    exact none_last _ (List.getElem_mem _)

theorem Reached.intact_upto (reached : c.Reached source i address bytes block) {j : Nat}
    (le : j ≤ i) : ∃ address bytes block, c.Intact source j address bytes block := by
  rcases Nat.lt_or_eq_of_le le with before | rfl
  · obtain ⟨address, bytes, block, intact, -⟩ := reached.earlier j before
    exact ⟨address, bytes, block, intact⟩
  · exact ⟨address, bytes, block, reached.toIntact⟩

theorem Scanned.lt_of_reached (scanned : c.Scanned source blocks ending)
    (reached : c.Reached source i address bytes block) : i < blocks.length := by
  refine Nat.lt_of_not_le fun beyond => ?_
  cases ending with
  | none =>
    obtain ⟨earlier, last, rfl, is_last, -⟩ := scanned.complete.ends_last
    rw [List.length_append, List.length_singleton] at beyond
    obtain ⟨_, _, _, intact, not_last⟩ := reached.earlier earlier.length (by omega)
    obtain ⟨_, _, intact'⟩ := scanned.leads.intact earlier.length (by simp)
    rw [List.getElem_concat_length rfl] at intact'
    rw [intact.unique intact', is_last] at not_last
    cases not_last
  | some e =>
    rcases scanned.stopped.stopped with ⟨whole, -⟩ | ⟨-, unread⟩
    · have within := reached.within
      omega
    · obtain ⟨_, _, _, intact⟩ := reached.intact_upto beyond
      rw [readBlock_eq_ok.mpr ⟨_, _, intact⟩] at unread
      cases unread

/-- A scan goes through what it reaches. -/
theorem Scanned.reached_iff (scanned : c.Scanned source blocks ending) :
    (∃ address bytes, c.Reached source i address bytes block) ↔ blocks[i]? = some block := by
  constructor
  · rintro ⟨address, bytes, reached⟩
    have lt := scanned.lt_of_reached reached
    obtain ⟨_, _, intact⟩ := scanned.leads.intact i lt
    exact List.getElem?_eq_some_iff.mpr ⟨lt, intact.unique reached.toIntact⟩
  · intro here
    obtain ⟨lt, same⟩ := List.getElem?_eq_some_iff.mp here
    obtain ⟨address, bytes, intact⟩ := scanned.leads.intact i lt
    rw [same] at intact
    refine ⟨address, bytes, intact, Nat.lt_of_lt_of_le lt scanned.leads.within, fun j before => ?_⟩
    obtain ⟨address', bytes', intact'⟩ := scanned.leads.intact j (by omega)
    exact ⟨address', bytes', _, intact', scanned.none_last_before (by omega)⟩

/-- The first mapping in a list of blocks is the first in the first block that has one. -/
theorem firstMapping_eq_ok {oid : ObjectId} {otherwise : StoreError}
    {mapping : EphemeralMapping} : firstMapping (listed blocks) oid otherwise = .ok mapping ↔
      ∃ (i : Nat) (h : i < blocks.length), blocks[i].find oid = some mapping ∧
        ∀ j (before : j < i), blocks[j].find oid = none := by
  have found_iff : firstMapping (listed blocks) oid otherwise = .ok mapping ↔
      blocks.findSome? (·.find oid) = some mapping := by
    rw [firstMapping, find_listed]
    cases blocks.findSome? (·.find oid) <;> simp
  rw [found_iff, List.findSome?_eq_some_iff]
  constructor
  · rintro ⟨before, block, behind, rfl, found, missing⟩
    refine ⟨before.length, by simp, by simpa using found, fun j lt => ?_⟩
    rw [List.getElem_append_left lt]
    exact missing _ (List.getElem_mem lt)
  · rintro ⟨i, h, found, none_before⟩
    refine ⟨blocks.take i, blocks[i], blocks.drop (i + 1), by simp, found, fun block mem => ?_⟩
    obtain ⟨j, lt, rfl⟩ := List.getElem_of_mem mem
    rw [List.length_take] at lt
    rw [List.getElem_take]
    exact none_before j (by omega)

theorem Scanned.resolve_eq_ok (scanned : c.Scanned source blocks ending) {oid : ObjectId}
    {mapping : EphemeralMapping} : c.resolve source oid = .ok mapping ↔
      ∃ i address bytes block, c.Reached source i address bytes block ∧
        block.find oid = some mapping ∧ ∀ j < i, ∀ address bytes earlier,
          c.Reached source j address bytes earlier → earlier.find oid = none := by
  rw [scanned.resolve_eq, firstMapping_eq_ok]
  constructor
  · rintro ⟨i, h, found, none_before⟩
    obtain ⟨address, bytes, reached⟩ := scanned.reached_iff.mpr (List.getElem?_eq_getElem h)
    refine ⟨i, address, bytes, _, reached, found, ?_⟩
    intro j before _ _ earlier there
    obtain ⟨lt, same⟩ := List.getElem?_eq_some_iff.mp (scanned.reached_iff.mp ⟨_, _, there⟩)
    rw [← same]
    exact none_before j before
  · rintro ⟨i, address, bytes, block, reached, found, none_before⟩
    obtain ⟨h, same⟩ := List.getElem?_eq_some_iff.mp (scanned.reached_iff.mp ⟨_, _, reached⟩)
    refine ⟨i, h, same ▸ found, fun j before => ?_⟩
    obtain ⟨_, _, there⟩ := scanned.reached_iff.mpr
      (List.getElem?_eq_getElem (Nat.lt_trans before h))
    exact none_before j before _ _ _ there

theorem Scanned.mem_listed (scanned : c.Scanned source blocks ending)
    {mapping : EphemeralMapping} : mapping ∈ listed blocks ↔
      ∃ i address bytes block, c.Reached source i address bytes block ∧
        mapping ∈ block.mappings := by
  rw [listed, List.mem_flatMap]
  constructor
  · rintro ⟨block, mem, here⟩
    obtain ⟨i, h, same⟩ := List.getElem_of_mem mem
    obtain ⟨address, bytes, reached⟩ := scanned.reached_iff.mpr (List.getElem?_eq_getElem h)
    exact ⟨i, address, bytes, _, reached, same ▸ here⟩
  · rintro ⟨i, address, bytes, block, reached, here⟩
    exact ⟨block, List.mem_of_getElem? (scanned.reached_iff.mp ⟨_, _, reached⟩), here⟩

end Scanned

theorem ofSuperblock_eq_ok {s : Superblock} {e : ByteOrder} {maxBlocks : Option UInt32}
    (chain : ofSuperblock s e maxBlocks = .ok c) :
    c.order = e ∧ c.maxBlocks.toNat ≤ s.descBlocks.toNat ∧
      ∀ i, c.blockAddress i = s.checkpointBlock i := by
  obtain ⟨-, some_blocks, rfl⟩ := ofSuperblock_eq_ok_iff.mp chain
  refine ⟨rfl, ?_, fun i => (if_neg some_blocks).symm⟩
  rw [toNat_min]
  exact Nat.min_le_right _ _

/-- A mapping is used if it stands first for its object in the blocks that a scan reaches. These
verify and are map blocks, but of their headers only the type is looked at. If each was written
for where it lies by the transaction of the superblock, the mappings are those of its checkpoint. -/
theorem mappings_of_reached {s : Superblock} {e : ByteOrder} {maxBlocks : Option UInt32}
    (chain : ofSuperblock s e maxBlocks = .ok c) :
    (∀ oid mapping, c.resolve source oid = .ok mapping ↔
      ∃ i address bytes block, c.Reached source i address bytes block ∧
        block.find oid = some mapping ∧ ∀ j < i, ∀ address bytes earlier,
          c.Reached source j address bytes earlier → earlier.find oid = none) ∧
    (∀ list, c.mappings source = .ok list → ∀ mapping, mapping ∈ list ↔
      ∃ i address bytes block, c.Reached source i address bytes block ∧
        mapping ∈ block.mappings) ∧
    (∀ i address bytes block, c.Reached source i address bytes block →
      i < s.descBlocks.toNat ∧ s.checkpointBlock i.toUInt32 = some address ∧
        source.readBlock address = .ok bytes ∧ Object.verifies e bytes = true ∧
        MapBlock.parse e bytes = .ok block ∧
        block.header.typeCode = TypeWord.checkpointMap) ∧
    ((∀ i address bytes block, c.Reached source i address bytes block →
        Belongs s address block) →
      (∀ oid mapping, c.resolve source oid = .ok mapping →
        ∃ i address bytes block, c.Reached source i address bytes block ∧
          mapping ∈ block.mappings ∧ Belongs s address block) ∧
      ∀ list, c.mappings source = .ok list → ∀ mapping ∈ list,
        ∃ i address bytes block, c.Reached source i address bytes block ∧
          mapping ∈ block.mappings ∧ Belongs s address block) := by
  obtain ⟨blocks, ending, (scanned : c.Scanned source blocks ending)⟩ :=
    scan_total c source c.maxBlocks.toNat 0
  obtain ⟨order_eq, max_le, address_eq⟩ := ofSuperblock_eq_ok chain
  have listed_iff : ∀ list, c.mappings source = .ok list → ∀ mapping, mapping ∈ list ↔
      ∃ i address bytes block, c.Reached source i address bytes block ∧
        mapping ∈ block.mappings := by
    intro list run mapping
    rw [scanned.mappings_eq] at run
    cases ending with
    | some e => cases run
    | none =>
      cases run
      exact scanned.mem_listed
  refine ⟨fun oid mapping => scanned.resolve_eq_ok, listed_iff, ?_, fun own => ⟨?_, ?_⟩⟩
  · intro i address bytes block reached
    refine ⟨?_, (address_eq _).symm.trans reached.placed, reached.read, order_eq ▸ reached.verified,
      order_eq ▸ reached.parsed, MapBlock.typeCode_of_parse reached.parsed⟩
    exact Nat.lt_of_lt_of_le reached.within max_le
  · intro oid mapping run
    obtain ⟨i, address, bytes, block, reached, found, -⟩ := scanned.resolve_eq_ok.mp run
    exact ⟨i, address, bytes, block, reached, List.mem_of_find?_eq_some found,
      own i address bytes block reached⟩
  · intro list run mapping mem
    obtain ⟨i, address, bytes, block, reached, here⟩ := (listed_iff list run mapping).mp mem
    exact ⟨i, address, bytes, block, reached, here, own i address bytes block reached⟩

section SoleBlock

/-- A superblock of the transaction 10 whose checkpoint has one map block, on block 1. -/
def soleRing : Superblock :=
  { ObjectDraft.blankSuperblock 4096 64 10 with
    descBlocksWord := 1
    descBase := 1
    descLength := 1 }

def soleChain : MapChain := ⟨.little, 1, 1, 0, 1⟩

def soleMapping : EphemeralMapping := ObjectDraft.ephemeralMapping 1024 5 4096 18

theorem soleChain_eq : ofSuperblock soleRing .little none = .ok soleChain := rfl

theorem soleChain_address (i : UInt32) : soleChain.blockAddress i = some 1 := by
  have slot : (soleChain.firstSlot.toUInt64 + i.toUInt64) % soleChain.ringBlocks.toUInt64 = 0 := by
    apply UInt64.toNat_inj.mp
    rw [UInt64.toNat_mod]
    exact Nat.mod_one _
  rw [blockAddress, slot]
  rfl

/-- An image of two blocks with a map block on the second. -/
def soleImage (bytes : Bytes) : Image := ⟨4096, 2, [(1, bytes)]⟩

theorem sole_reached (address : BlockAddress) (xid : TransactionId) : ∃ bytes source block,
    ObjectDraft.mapBlock .little 4096 xid 0 address true [soleMapping] = .ok bytes ∧
      (soleImage bytes).toSource = .ok source ∧ soleChain.Reached source 0 1 bytes block ∧
      block.header.oid = address ∧ block.header.xid = xid ∧ block.mappings = [soleMapping] ∧
      block.isLast = true := by
  obtain ⟨bytes, made⟩ : ∃ bytes,
      ObjectDraft.mapBlock .little 4096 xid 0 address true [soleMapping] = .ok bytes :=
    ObjectDraft.mapBlock_succeeds (by decide) (by decide) (by decide) (by decide)
  obtain ⟨size_eq, verified, block, parsed, oid_eq, xid_eq, is_last, mappings_eq, -⟩ :=
    ObjectDraft.mapBlock_reads (by decide) (by decide) made
  have filled : (soleImage bytes).Filled := by
    intro at_block held mem
    cases List.mem_singleton.mp mem
    exact size_eq
  obtain ⟨source, shown⟩ := Image.toSource_succeeds filled (by change (4096 : UInt32) ∈ _; decide)
    (by change 2 * 4096 < _; decide)
  obtain ⟨contents, size, held⟩ := Image.shown_of_toSource filled shown
  obtain ⟨-, read⟩ := held.blocks_eq 1 bytes (by simp [soleImage, Image.block?])
    (by change 1 < 2; decide)
  exact ⟨bytes, source, block, made, shown,
    ⟨⟨soleChain_address _, read, verified, parsed⟩, Nat.one_pos,
      fun j h => absurd h (Nat.not_lt_zero j)⟩,
    oid_eq, xid_eq, mappings_eq, is_last⟩

theorem mappings_of_reached_own : ∃ bytes source block,
    ObjectDraft.mapBlock .little 4096 10 0 1 true [soleMapping] = .ok bytes ∧
      (soleImage bytes).toSource = .ok source ∧
      ofSuperblock soleRing .little none = .ok soleChain ∧
      soleChain.Reached source 0 1 bytes block ∧ Belongs soleRing 1 block ∧
      soleChain.resolve source 1024 = .ok soleMapping := by
  obtain ⟨bytes, source, block, made, shown, reached, oid_eq, xid_eq, mappings_eq, -⟩ :=
    sole_reached 1 10
  refine ⟨bytes, source, block, made, shown, soleChain_eq, reached, ⟨oid_eq, xid_eq⟩, ?_⟩
  refine ((mappings_of_reached soleChain_eq).1 1024 soleMapping).mpr
    ⟨0, 1, bytes, block, reached, ?_, fun j before => absurd before (Nat.not_lt_zero j)⟩
  rw [MapBlock.find, mappings_eq]
  rfl

/-- A map block of the transaction 3, written for block 7, is used where it lies on block 1 in
the ring of the transaction 10. -/
theorem foreign_mapping_used : ∃ bytes source,
    ObjectDraft.mapBlock .little 4096 3 0 7 true [soleMapping] = .ok bytes ∧
      (soleImage bytes).toSource = .ok source ∧
      ofSuperblock soleRing .little none = .ok soleChain ∧
      soleChain.resolve source 1024 = .ok soleMapping ∧
      soleChain.mappings source = .ok [soleMapping] ∧
      ¬∃ i address bytes block, soleChain.Intact source i address bytes block ∧
        soleMapping ∈ block.mappings ∧
        (block.header.oid = address ∨ block.header.xid = soleRing.header.xid) := by
  obtain ⟨bytes, source, block, made, shown, reached, oid_eq, xid_eq, mappings_eq, is_last⟩ :=
    sole_reached 7 3
  have scanned : soleChain.Scanned source [block] none :=
    .last (readBlock_eq_ok.mpr ⟨_, _, reached.toIntact⟩) is_last
  have listed_eq : listed [block] = [soleMapping] := by
    rw [listed, List.flatMap_singleton, mappings_eq]
  refine ⟨bytes, source, made, shown, soleChain_eq, ?_, ?_, ?_⟩
  · rw [scanned.resolve_eq, listed_eq]
    rfl
  · rw [scanned.mappings_eq, listed_eq]
    rfl
  · rintro ⟨i, address, bytes', block', intact, -, own⟩
    -- The ring has one block, so every slot of the chain is the same.
    obtain rfl : (1 : BlockAddress) = address :=
      Option.some.inj ((soleChain_address _).symm.trans intact.placed)
    have same_bytes := intact.read
    rw [reached.read] at same_bytes
    cases same_bytes
    have same_block := intact.parsed
    rw [reached.parsed] at same_block
    cases same_block
    rw [oid_eq, xid_eq] at own
    exact absurd own (by decide)

end SoleBlock

end ObjectStore.MapChain
