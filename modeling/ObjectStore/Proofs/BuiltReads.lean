import ObjectStore.Proofs.BuiltLookups

/-
Objects of a built container, read by reference. The flags of the newest version decide whether
it is handed out at all.
-/
namespace ObjectStore

open Session

theorem storageBits_of_plain {word : UInt32} (plain : TypeWord.flags word = 0) :
    word &&& TypeWord.storageMask = 0 := by
  have masks : TypeWord.storageMask = TypeWord.flagsMask &&& TypeWord.storageMask := by decide
  have flags : word &&& TypeWord.flagsMask = 0 := plain
  rw [masks, ← UInt32.and_assoc, flags, UInt32.zero_and]

theorem virtual_of_plain {word : UInt32} (plain : TypeWord.flags word = 0) :
    TypeWord.storage? word = some .virtual :=
  if_pos (storageBits_of_plain plain)

theorem ephemeral_of_plain {word : UInt32} (plain : TypeWord.flags word = 0) :
    TypeWord.storage? (word ||| TypeWord.ephemeralFlag) = some .ephemeral := by
  have apart : (word ||| TypeWord.ephemeralFlag) &&& TypeWord.storageMask
      = word &&& TypeWord.storageMask ||| TypeWord.ephemeralFlag &&& TypeWord.storageMask :=
    UInt32.toBitVec_inj.mp BitVec.and_or_distrib_right
  rw [TypeWord.storage?, apart, storageBits_of_plain plain, UInt32.zero_or]
  rfl

/-- An object as large as a block takes up one block. -/
theorem Resolver.yields_placed {contents : Bytes} {size : BlockSize} {e : ByteOrder}
    {source : BlockSource (Except StoreError)} {r : Resolver} {I : Memory → Prop}
    (opened : BlockSource.ofBytes contents size = .ok source) (reads : r.Reads source e)
    (some_bytes : 0 < size.toNat) (address : BlockAddress) :
    Yields I (r.placed address size.bytes) (.ok ⟨address, 1⟩) := by
  have block_size : r.source.blockSize = size.bytes := by
    rw [reads.source_eq]
    exact (BlockSource.ofBytes_eq_ok opened).2.1
  have same : r.placingSize = size := by
    rw [placingSize, block_size, max_one some_bytes]
  have one : r.placingSize.blocksFor size.bytes.toUInt64 = 1 := by
    apply UInt64.toNat_inj.mp
    rw [same, toNat_blocksFor some_bytes]
    exact Image.pieces_of_block some_bytes
  have step : r.placed address size.bytes
      = if r.placingSize.blocksFor size.bytes.toUInt64 = 0
        then throw (.corrupt address "mapped object has zero size") >>= fun _ : PUnit =>
          pure ⟨address, (r.placingSize.blocksFor size.bytes.toUInt64).toUInt32⟩
        else pure ⟨address, (r.placingSize.blocksFor size.bytes.toUInt64).toUInt32⟩ := rfl
  rw [step, one]
  exact yields_checked (by decide) (yields_pure _)

namespace ContainerDraft

variable {d : ContainerDraft} {p : ContainerParts} {built : ContainerImage} {contents : Bytes}
  {size : BlockSize} {source : BlockSource (Except StoreError)} {r : Resolver}

def objectVersion (d : ContainerDraft) (i : Nat) (h : i < d.objects.length) :
    VersionKey × Mapping :=
  (⟨d.objects[i].oid, d.objects[i].xid⟩, ⟨d.objects[i].mappingFlags, d.blockSize, objectAddress i⟩)

structure Delivered (d : ContainerDraft) (i : Nat) (h : i < d.objects.length)
    (reference : Reference) (o : ResolvedObject) : Prop where
  reference_eq : o.reference = reference
  address_eq : o.address = objectAddress i
  block_eq : d.buildObject d.objects[i] = .ok o.bytes
  oid_eq : o.header.oid = d.objects[i].oid
  xid_eq : o.header.xid = d.objects[i].xid
  type_eq : o.header.typeWord = d.objects[i].objectType
  payload_eq : ∃ rest, o.payload = d.content d.objects[i] ++ Bytes.zeros rest

section Opened

variable (makes : d.Makes p built) (legal : d.blockSize ∈ BlockSize.legal)
  (found : Found d p contents size source)

include makes legal found in
theorem yields_lookup_newest (distinct : (d.versions.map Prod.fst).Nodup)
    (bound : Bound d p source r) {oid : ObjectId} (free : reservedIds ≤ oid) {xid : TransactionId}
    {entry : VersionKey × Mapping} (newest : d.Newest oid xid entry) :
    Yields (Memory.Sound contents size d.order) (r.lookupMapping oid xid) (.ok entry.2) := by
  rcases yields_lookup makes legal found bound free xid with ⟨other, newest', yields⟩ | ⟨none, -⟩
  · rw [newest.unique distinct newest']
    exact yields
  · have newer := none entry newest.mem newest.oid_eq
    exact absurd newest.xid_le (UInt64.not_le.mpr newer)

include makes legal found in
theorem yields_deleted (distinct : (d.versions.map Prod.fst).Nodup) (bound : Bound d p source r)
    {oid : ObjectId} (free : reservedIds ≤ oid) {xid : TransactionId}
    {entry : VersionKey × Mapping} (newest : d.Newest oid xid entry)
    (deleted : entry.2.isDeleted = true) :
    ∃ text, Yields (Memory.Sound contents size d.order) (r.resolve (.virtual oid xid))
      (.error (.keyNotFound text)) := by
  have looked := yields_lookup_newest makes legal found distinct bound free newest
  exact ⟨_, Yields.bind_error (looked.bind (yields_refused deleted))⟩

include makes legal found in
theorem yields_unsupported (distinct : (d.versions.map Prod.fst).Nodup)
    (bound : Bound d p source r) {oid : ObjectId} (free : reservedIds ≤ oid) {xid : TransactionId}
    {entry : VersionKey × Mapping} (newest : d.Newest oid xid entry)
    (kept : entry.2.isDeleted = false)
    (unreadable : entry.2.isEncrypted = true ∨ entry.2.hasNoHeader = true) :
    ∃ text, Yields (Memory.Sound contents size d.order) (r.resolve (.virtual oid xid))
      (.error (.unsupported text)) := by
  have looked := yields_lookup_newest makes legal found distinct bound free newest
  have not_deleted : ¬entry.2.isDeleted = true := by
    rw [kept]
    exact Bool.false_ne_true
  by_cases encrypted : entry.2.isEncrypted = true
  · exact ⟨_, Yields.bind_error (looked.bind
      (yields_checked not_deleted (yields_refused encrypted)))⟩
  · have headless := unreadable.resolve_left encrypted
    exact ⟨_, Yields.bind_error (looked.bind
      (yields_checked not_deleted (yields_checked encrypted (yields_refused headless))))⟩

include legal found in
/-- An object of a built container takes up one block, wherever it lies. -/
theorem yields_one_block (reads : r.Reads source d.order) (address : BlockAddress) :
    Yields (Memory.Sound contents size d.order) (r.placed address d.blockSize)
      (.ok ⟨address, 1⟩) := by
  obtain ⟨roomy, -, -⟩ := size_bounds legal
  have some_bytes : 0 < size.toNat := by
    rw [found.size_same]
    omega
  rw [← found.size_eq]
  exact Resolver.yields_placed found.opened reads some_bytes address

include makes legal found in
/-- A version that may be read takes up the block of its object. -/
theorem yields_place_object (distinct : (d.versions.map Prod.fst).Nodup)
    (bound : Bound d p source r) {oid : ObjectId} (free : reservedIds ≤ oid) {xid : TransactionId}
    {i : Nat} (h : i < d.objects.length) (newest : d.Newest oid xid (d.objectVersion i h))
    (kept : (d.objectVersion i h).2.isDeleted = false)
    (readable : (d.objectVersion i h).2.isEncrypted = false)
    (headed : (d.objectVersion i h).2.hasNoHeader = false) :
    Yields (Memory.Sound contents size d.order) (r.place r.lookupMapping (.virtual oid xid))
      (.ok ⟨objectAddress i, 1⟩) := by
  have looked := yields_lookup_newest makes legal found distinct bound free newest
  apply looked.bind
  rw [kept, readable, headed]
  apply yields_checked Bool.false_ne_true
  apply yields_checked Bool.false_ne_true
  exact yields_checked Bool.false_ne_true
    (yields_one_block legal found bound.reads (objectAddress i))

/-- The header of an object is the one that a request for its newest version asks for. -/
theorem no_identityFault {oid : ObjectId} {xid : TransactionId} {i : Nat}
    (h : i < d.objects.length) (newest : d.Newest oid xid (d.objectVersion i h))
    (plain : TypeWord.flags d.objects[i].objectType = 0) (sum : UInt64) :
    identityFault? (.virtual oid xid)
      { ObjectDraft.header d.objects[i].oid d.objects[i].xid d.objects[i].objectType 0 with
        checksum := sum } = none :=
  Resolver.identityFault_virtual newest.oid_eq newest.xid_le (virtual_of_plain plain)

include makes legal found in
theorem yields_object (distinct : (d.versions.map Prod.fst).Nodup)
    (bound : Bound d p source r) {oid : ObjectId} (free : reservedIds ≤ oid) {xid : TransactionId}
    {i : Nat} (h : i < d.objects.length) (newest : d.Newest oid xid (d.objectVersion i h))
    (plain : TypeWord.flags d.objects[i].objectType = 0)
    (kept : (d.objectVersion i h).2.isDeleted = false)
    (readable : (d.objectVersion i h).2.isEncrypted = false)
    (headed : (d.objectVersion i h).2.hasNoHeader = false) :
    ∃ o, Delivered d i h (.virtual oid xid) o ∧
      Yields (Memory.Sound contents size d.order) (r.resolve (.virtual oid xid)) (.ok o) := by
  obtain ⟨roomy, -, addressable⟩ := size_bounds legal
  have header_size : ObjectHeader.size = 32 := rfl
  obtain ⟨bytes, made, listed⟩ := object_listed makes.toPrepares h
  have stored : source.readBlock (objectAddress i) = .ok bytes := found.object listed
  have raw := made
  rw [buildObject_eq] at raw
  have holds := ObjectDraft.raw_holds addressable raw
  obtain ⟨sum, parsed⟩ := holds.header (by omega)
  have placed :=
    yields_place_object makes legal found distinct bound free h newest kept readable headed
  have resolved := Resolver.yields_resolve bound.reads placed stored holds.verified parsed
    (no_identityFault h newest plain sum)
  refine ⟨_, ?_, resolved⟩
  exact ⟨rfl, rfl, made, rfl, rfl, rfl, _, ObjectDraft.raw_payload addressable raw⟩

end Opened

end ContainerDraft

end ObjectStore
