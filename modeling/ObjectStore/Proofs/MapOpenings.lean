import ObjectStore.Container
import ObjectStore.Proofs.BuiltImage
import ObjectStore.Proofs.BuiltObjects
import ObjectStore.Proofs.StoredFields
import ObjectStore.Proofs.SuperblockFormat

/-
The two ways to an object map: straight from a source, and as a physical object that a resolver
finds. Both look for the same faults of one block, in orders that differ. Where a block has
several, the errors may differ in what they say, but not in their kind unless the block is too
short for a descriptor.
-/
namespace ObjectStore

open Session

namespace StoreError

inductive Kind where
  | io
  | outOfRange
  | truncated
  | corrupt
  | keyNotFound
  | treeTooDeep
  | reservedId
  | format
  | unsupported
  deriving DecidableEq, Repr

def kind : StoreError → Kind
  | io _ => .io
  | outOfRange _ _ => .outOfRange
  | truncated _ _ => .truncated
  | corrupt _ _ => .corrupt
  | keyNotFound _ => .keyNotFound
  | treeTooDeep _ _ => .treeTooDeep
  | reservedId _ => .reservedId
  | format _ => .format
  | unsupported _ => .unsupported

end StoreError

/-- Both succeed with the same, or fail with errors of one kind. -/
def Alike {α : Type} (x y : Except StoreError α) : Prop :=
  x.mapError StoreError.kind = y.mapError StoreError.kind

theorem Alike.eq_ok_iff {α : Type} {x y : Except StoreError α} (alike : Alike x y) (a : α) :
    x = .ok a ↔ y = .ok a := by
  have kept : ∀ {z : Except StoreError α}, z.mapError StoreError.kind = .ok a ↔ z = .ok a :=
    mapError_eq_ok
  rw [← kept, ← kept, alike]

theorem Alike.error {α : Type} {y : Except StoreError α} {refused : StoreError}
    (alike : Alike (.error refused) y) : ∃ refused', y = .error refused' ∧
      refused'.kind = refused.kind := by
  cases y with
  | ok a => cases alike
  | error refused' => exact ⟨refused', rfl, (Except.error.inj alike).symm⟩

theorem ObjectHeader.parse_of_verifies {e : ByteOrder} {block : Bytes}
    (verified : Object.verifies e block = true) :
    parse e block = .ok (stored e block 0) := by
  obtain ⟨long, -⟩ := (Object.verifies_iff e block).mp verified
  exact (codec_shows.decode_eq_ok (by decide)).mpr ⟨long, rfl⟩

namespace ObjectMap

variable {address : BlockAddress} {e : ByteOrder} {block : Bytes}

/-- Opens the map at an address through a resolver, which reads it as any other physical object. -/
def openThrough (r : Resolver) (address : BlockAddress) : Reading ObjectMap := do
  let object ← r.resolve (.physical address)
  let d ← decodedAt address (MapDescriptor.parse r.order object.bytes)
  ofExcept (ofDescriptor address r.order d)

/-- This is how a container opens its map. -/
theorem bindObjectMap_eq (r : Resolver) (address : BlockAddress) :
    Container.bindObjectMap r address = do return r.withObjectMap (← openThrough r address) := by
  simp only [Container.bindObjectMap, openThrough, bind_assoc]

def ofBlock (e : ByteOrder) (address : BlockAddress) (block : Bytes) :
    Except StoreError ObjectMap := do
  Object.verify e block address "object map"
  let d ← decodedAt address (MapDescriptor.parse e block)
  ofDescriptor address e d

/-- What it comes to as a physical object, whose header is looked at first. -/
def ofObject (e : ByteOrder) (address : BlockAddress) (block : Bytes) :
    Except StoreError ObjectMap := do
  Object.verify e block address (Reference.physical address).text
  let header ← decodedAt address (ObjectHeader.parse e block)
  Resolver.identityOf (.physical address) address header
  let d ← decodedAt address (MapDescriptor.parse e block)
  ofDescriptor address e d

structure Stub (e : ByteOrder) (address : BlockAddress) (block : Bytes) : Prop where
  verified : Object.verifies e block = true
  short : block.size < MapDescriptor.codec.size
  foreign : (ObjectHeader.stored e block 0).oid ≠ address

theorem ofBlock_eq (verified : Object.verifies e block = true) : ofBlock e address block = (do
    let d ← decodedAt address (MapDescriptor.parse e block)
    ofDescriptor address e d) := by
  rw [ofBlock, Object.verify_eq_ok.mpr verified, ok_bind]

theorem identityOf_own {header : ObjectHeader} (own : header.oid = address) :
    Resolver.identityOf (.physical address) address header = .ok () := by
  rw [Resolver.identityOf, identityFault?, if_neg (not_not_intro own)]

theorem identityOf_foreign {header : ObjectHeader} (foreign : header.oid ≠ address) :
    ∃ detail, Resolver.identityOf (.physical address) address header
      = .error (.corrupt address detail) := by
  rw [Resolver.identityOf, identityFault?, if_pos foreign]
  exact ⟨_, rfl⟩

theorem ofObject_own (verified : Object.verifies e block = true)
    (own : (ObjectHeader.stored e block 0).oid = address) :
    ofObject e address block = ofBlock e address block := by
  rw [ofBlock_eq verified, ofObject, Object.verify_eq_ok.mpr verified, ok_bind,
    decodedAt_eq_ok.mpr (ObjectHeader.parse_of_verifies verified), ok_bind, identityOf_own own,
    ok_bind]

theorem ofObject_foreign (verified : Object.verifies e block = true)
    (foreign : (ObjectHeader.stored e block 0).oid ≠ address) :
    ∃ detail, ofObject e address block = .error (.corrupt address detail) := by
  obtain ⟨detail, refused⟩ := identityOf_foreign foreign
  rw [ofObject, Object.verify_eq_ok.mpr verified, ok_bind,
    decodedAt_eq_ok.mpr (ObjectHeader.parse_of_verifies verified), ok_bind, refused]
  exact ⟨detail, rfl⟩

/-- Behind a header for another block a descriptor is refused for its type or for its name. -/
theorem ofBlock_foreign (verified : Object.verifies e block = true)
    (long : MapDescriptor.codec.size ≤ block.size)
    (foreign : (ObjectHeader.stored e block 0).oid ≠ address) :
    ∃ detail, ofBlock e address block = .error (.corrupt address detail) := by
  have decoded : MapDescriptor.codec.decode e block = .ok (MapDescriptor.stored e block 0) :=
    (MapDescriptor.codec_shows.decode_eq_ok (by decide)).mpr ⟨long, rfl⟩
  have named_other : (MapDescriptor.stored e block 0).header.oid ≠ address := foreign
  rw [ofBlock_eq verified]
  by_cases coded : (MapDescriptor.stored e block 0).header.typeCode = TypeWord.objectMap
  · have expected := ObjectHeader.expectCode_eq_ok.mpr coded
    have parsed : MapDescriptor.parse e block = .ok (MapDescriptor.stored e block 0) :=
      bind_eq_ok.mpr ⟨_, decoded, bind_eq_ok.mpr ⟨(), expected, rfl⟩⟩
    rw [decodedAt_eq_ok.mpr parsed, ok_bind, ofDescriptor, decodedAt_eq_ok.mpr expected, ok_bind,
      if_pos named_other]
    exact ⟨_, rfl⟩
  · rw [MapDescriptor.parse, decoded, ok_bind, ObjectHeader.expectCode, if_neg coded]
    exact ⟨_, rfl⟩

theorem ofBlock_short (address : BlockAddress) (verified : Object.verifies e block = true)
    (short : block.size < MapDescriptor.codec.size) :
    ∃ detail, ofBlock e address block = .error (.truncated address detail) := by
  obtain ⟨needed, offset, actual, refused⟩ := MapDescriptor.faithful.parse_short e block short
  rw [ofBlock_eq verified, refused]
  exact ⟨_, rfl⟩

theorem alike_of_not_stub (whole : ¬Stub e address block) :
    Alike (ofBlock e address block) (ofObject e address block) := by
  by_cases verified : Object.verifies e block = true
  · by_cases own : (ObjectHeader.stored e block 0).oid = address
    · rw [ofObject_own verified own]
      rfl
    · have long := Nat.le_of_not_lt fun short => whole ⟨verified, short, own⟩
      obtain ⟨straight, refused⟩ := ofBlock_foreign verified long own
      obtain ⟨referred, refused'⟩ := ofObject_foreign verified own
      rw [refused, refused']
      rfl
  · rw [ofBlock, ofObject, Object.verify, Object.verify, if_neg verified, if_neg verified]
    rfl

theorem ofBlock_eq_ok_iff (e : ByteOrder) (address : BlockAddress) (block : Bytes)
    (map : ObjectMap) : ofBlock e address block = .ok map ↔ ofObject e address block = .ok map := by
  by_cases stub : Stub e address block
  · obtain ⟨straight, refused⟩ := ofBlock_short address stub.verified stub.short
    obtain ⟨referred, refused'⟩ := ofObject_foreign stub.verified stub.foreign
    rw [refused, refused']
    exact iff_of_false nofun nofun
  · exact (alike_of_not_stub stub).eq_ok_iff map

section Reading

variable {σ : Type} {I : σ → Prop}

theorem yields_verify (e : ByteOrder) (block : Bytes) (address : BlockAddress) (what : String) :
    Yields I (Object.verify e block address what) (Object.verify e block address what) := by
  unfold Object.verify
  split
  · exact yields_pure _
  · exact yields_throw _

theorem yields_checkIdentity (reference : Reference) (header : ObjectHeader)
    {I : Memory → Prop} : Yields I (Resolver.checkIdentity reference address header)
      (Resolver.identityOf reference address header) := by
  intro memory holds
  rw [Resolver.perform_checkIdentity]
  exact ⟨holds, rfl⟩

theorem perform_openAt (source : BlockSource (Session σ)) (nonzero : address ≠ 0) (s : σ) :
    (openAt source address e).perform s
      = (((source.readBlock address).perform s).1 >>= ofBlock e address,
          ((source.readBlock address).perform s).2) := by
  rw [openAt, if_neg nonzero]
  refine perform_bind_result _ (fun block I => ?_) s
  exact (yields_verify _ _ _ _).bind_result fun _ =>
    (yields_decoded _ _).bind_result fun _ => yields_result _

theorem perform_openThrough (r : Resolver) (nonzero : address ≠ 0) (memory : Memory) :
    (openThrough r address).perform memory
      = (((r.source.readBlock address).perform memory).1 >>= ofObject r.order address,
          ((r.source.readBlock address).perform memory).2) := by
  have placed : r.place r.lookupMapping (.physical address) = pure ⟨address, 1⟩ := if_neg nonzero
  have read : r.readPlaced ⟨address, 1⟩ = r.source.readBlock address := if_pos rfl
  simp only [openThrough, Resolver.resolve, placed, pure_bind, read, bind_assoc]
  refine perform_bind_result _ (fun block I => ?_) memory
  exact (yields_verify _ _ _ _).bind_result fun _ =>
    (yields_decoded _ _).bind_result fun header =>
      (yields_checkIdentity _ header).bind_result fun _ =>
        (yields_decoded _ _).bind_result fun _ => yields_result _

/-- Nothing is read for the address that no object has. -/
theorem perform_openAt_zero (source : BlockSource (Session σ)) (zero : address = 0) (s : σ) :
    (openAt source address e).perform s = (.error (.reservedId 0), s) := by
  rw [openAt, if_pos zero]
  rfl

theorem perform_openThrough_zero (r : Resolver) (zero : address = 0) (memory : Memory) :
    (openThrough r address).perform memory = (.error (.reservedId 0), memory) := by
  have refused : r.place r.lookupMapping (.physical address) = throw (.reservedId 0) :=
    if_pos zero
  rw [openThrough, Resolver.resolve, refused]
  rfl

end Reading

theorem ofDescriptor_eq_ok {d : MapDescriptor} {map : ObjectMap}
    (described : ofDescriptor address e d = .ok map) : d.header.oid = address ∧
      d.treeStorage? = some .physical ∧ map = ⟨address, e, d, Tree.standardDepth⟩ := by
  obtain ⟨_, -, rest⟩ := bind_eq_ok.mp described
  obtain ⟨own, rest⟩ := checked_eq_ok.mp rest
  obtain ⟨physical, same⟩ := checked_eq_ok.mp rest
  exact ⟨Decidable.not_not.mp own, Decidable.not_not.mp physical, (Except.ok.inj same).symm⟩

structure At (address : BlockAddress) (e : ByteOrder) (map : ObjectMap) : Prop where
  address_eq : map.address = address
  order_eq : map.order = e
  named : map.descriptor.header.oid = address
  physical : map.descriptor.treeStorage? = some .physical
  root_eq : map.treeRoot = .physical map.descriptor.treeOid

theorem at_of_ofBlock {map : ObjectMap} (run : ofBlock e address block = .ok map) :
    At address e map := by
  obtain ⟨_, -, run⟩ := bind_eq_ok.mp run
  obtain ⟨d, -, described⟩ := bind_eq_ok.mp run
  obtain ⟨own, physical, rfl⟩ := ofDescriptor_eq_ok described
  exact ⟨rfl, rfl, own, physical, rfl⟩

/-- Two openings of the map at an address leave the same behind and come to the same map, if to
any. -/
structure Agree (address : BlockAddress) (e : ByteOrder)
    (straight referred : Except StoreError ObjectMap × Memory) : Prop where
  memory_eq : straight.2 = referred.2
  map_iff : ∀ map, straight.1 = .ok map ↔ referred.1 = .ok map
  opened : ∀ map, straight.1 = .ok map → At address e map

theorem agree_openings (r : Resolver) (address : BlockAddress) (memory : Memory) :
    Agree address r.order ((openAt r.source address r.order).perform memory)
      ((openThrough r address).perform memory) := by
  by_cases zero : address = 0
  · rw [perform_openAt_zero _ zero, perform_openThrough_zero r zero]
    exact ⟨rfl, fun map => iff_of_false nofun nofun, fun map => nofun⟩
  · rw [perform_openAt _ zero, perform_openThrough _ zero]
    cases ((r.source.readBlock address).perform memory).1 with
    | error refused => exact ⟨rfl, fun map => Iff.rfl, fun map => nofun⟩
    | ok block =>
      exact ⟨rfl, ofBlock_eq_ok_iff r.order address block, fun map => at_of_ofBlock⟩

theorem alike_openings (r : Resolver) (address : BlockAddress) (memory : Memory)
    (whole : ∀ block, ((r.source.readBlock address).perform memory).1 = .ok block →
      ¬Stub r.order address block) :
    Alike ((openAt r.source address r.order).perform memory).1
      ((openThrough r address).perform memory).1 := by
  by_cases zero : address = 0
  · rw [perform_openAt_zero _ zero, perform_openThrough_zero r zero]
    rfl
  · rw [perform_openAt _ zero, perform_openThrough _ zero]
    cases read : ((r.source.readBlock address).perform memory).1 with
    | error refused => rfl
    | ok block => exact alike_of_not_stub (whole block read)

section Image

variable {image : Bytes} {size : BlockSize} {source : BlockSource (Except StoreError)}

theorem not_stub_of_legal (legal : size.bytes ∈ BlockSize.legal)
    (opened : BlockSource.ofBytes image size = .ok source)
    (read : source.readBlock address = .ok block) : ¬Stub e address block := by
  intro stub
  have length_eq := (BlockSource.readBlock_holds opened read).length_eq
  have roomy : 4096 ≤ size.toNat := (BlockSize.mem_legal.mp legal).2.1
  have short : block.size < 88 := stub.short
  omega

theorem openAt_eq (source : BlockSource (Except StoreError)) (nonzero : address ≠ 0) :
    openAt source address e = source.readBlock address >>= ofBlock e address := by
  have plain : ∀ x : Except StoreError ObjectMap, ofExcept x = x := fun x => by cases x <;> rfl
  rw [openAt, if_neg nonzero]
  simp only [plain]
  rfl

/-- What is read straight does not depend on what a reader remembers. -/
theorem perform_openAt_remembered (source : BlockSource (Except StoreError))
    (address : BlockAddress) (e : ByteOrder) (memory : Memory) :
    ((openAt source.remembered address e).perform memory).1 = openAt source address e := by
  by_cases zero : address = 0
  · rw [perform_openAt_zero _ zero, openAt, if_pos zero]
    rfl
  · rw [perform_openAt _ zero, BlockSource.perform_remembered_block, openAt_eq source zero]

/-- Opening an object map straight from a source, or through any resolver over the source, reads
the same block and comes to the same map, if to any. If to none, both errors are of one kind, except
over a source with blocks too short for a descriptor, where one may be told to be too short and
the other to belong elsewhere. An image with blocks of a legal size is no such source. -/
theorem openings_agree (r : Resolver) (address : BlockAddress) :
    (Container.bindObjectMap r address = do return r.withObjectMap (← openThrough r address)) ∧
    (∀ memory, Agree address r.order ((openAt r.source address r.order).perform memory)
      ((openThrough r address).perform memory)) ∧
    (∀ memory, Alike ((openAt r.source address r.order).perform memory).1
        ((openThrough r address).perform memory).1 ∨
      ∃ block, ((r.source.readBlock address).perform memory).1 = .ok block ∧
        Stub r.order address block) ∧
    ∀ image size source, size.bytes ∈ BlockSize.legal →
      BlockSource.ofBytes image size = .ok source → r.source = source.remembered → ∀ memory,
        Alike (openAt source address r.order) ((openThrough r address).perform memory).1 := by
  refine ⟨bindObjectMap_eq r address, agree_openings r address, fun memory => ?_, ?_⟩
  · by_cases stub : ∃ block, ((r.source.readBlock address).perform memory).1 = .ok block ∧
        Stub r.order address block
    · exact .inr stub
    · exact .inl (alike_openings r address memory fun block read short => stub ⟨block, read, short⟩)
  · intro image size source legal opened reads memory
    have alike := alike_openings r address memory fun block read => by
      rw [reads, BlockSource.perform_remembered_block] at read
      exact not_stub_of_legal legal opened read
    rwa [reads, perform_openAt_remembered] at alike

/-- An image with a map of block 1 on this block, and once more on block 2. -/
def twice (bytes : Bytes) : Image := ⟨4096, 3, [(1, bytes), (2, bytes)]⟩

/-- The map is opened at its own block, in both ways, and refused at the other in both. -/
theorem openings_agree_twice : ∃ bytes source map,
    ObjectDraft.mapDescriptor .little 4096 1 10 2 none = .ok bytes ∧
      (twice bytes).toSource = .ok source ∧ openAt source 1 .little = .ok map ∧
      map.treeRoot = .physical 2 ∧
      (∃ detail, openAt source 2 .little = .error (.corrupt 2 detail)) ∧
      ∀ memory, let r := Resolver.ofSource source.remembered .little .standard
        ((openThrough r 1).perform memory).1 = .ok map ∧
          ∃ refused, ((openThrough r 2).perform memory).1 = .error refused ∧
            refused.kind = .corrupt := by
  obtain ⟨bytes, made⟩ : ∃ b, ObjectDraft.mapDescriptor .little 4096 1 10 2 none = .ok b :=
    ObjectDraft.mapDescriptor_succeeds (by decide) (by decide)
  obtain ⟨size_eq, verified, ⟨h, header_parsed, named⟩, d, parsed, root_eq, -, described⟩ :=
    ObjectDraft.mapDescriptor_reads (by decide) (by decide) made
  have filled : (twice bytes).Filled := by
    intro address held mem
    obtain same | mem := List.mem_cons.mp mem
    · cases same
      exact size_eq
    · cases List.mem_singleton.mp mem
      exact size_eq
  obtain ⟨source, shown⟩ := Image.toSource_succeeds filled (by change (4096 : UInt32) ∈ _; decide)
    (by change 3 * 4096 < _; decide)
  obtain ⟨contents, size, held⟩ := Image.shown_of_toSource filled shown
  obtain ⟨-, read_own⟩ := held.blocks_eq 1 bytes rfl (by change 1 < 3; decide)
  obtain ⟨-, read_other⟩ := held.blocks_eq 2 bytes rfl (by change 2 < 3; decide)
  have opens : openAt source 1 .little = .ok ⟨1, .little, d, Tree.standardDepth⟩ := by
    rw [openAt_eq source (by decide), read_own, ok_bind, ofBlock_eq verified,
      decodedAt_eq_ok.mpr parsed, ok_bind, described]
  have foreign : (ObjectHeader.stored .little bytes 0).oid ≠ 2 := by
    rw [ObjectHeader.parse_of_verifies verified] at header_parsed
    rw [Except.ok.inj header_parsed, named]
    decide
  have long : MapDescriptor.codec.size ≤ bytes.size := by
    rw [size_eq]
    decide
  obtain ⟨detail, refused⟩ := ofBlock_foreign verified long foreign
  have refuses : openAt source 2 .little = .error (.corrupt 2 detail) := by
    rw [openAt_eq source (by decide), read_other, ok_bind, refused]
  refine ⟨bytes, source, _, made, shown, opens, congrArg Reference.physical root_eq,
    ⟨detail, refuses⟩, fun memory => ?_⟩
  intro r
  have own := (openings_agree r 1).2.2.2 contents size source held.legal held.opened rfl memory
  have other := (openings_agree r 2).2.2.2 contents size source held.legal held.opened rfl memory
  have other : Alike (.error (.corrupt 2 detail)) ((openThrough r 2).perform memory).1 := by
    rw [← refuses]
    exact other
  exact ⟨(own.eq_ok_iff _).mp opens, other.error⟩

end Image

end ObjectMap

end ObjectStore
