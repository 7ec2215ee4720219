import ObjectStore.Proofs.BuiltObjects
import ObjectStore.Proofs.ChainScans
import ObjectStore.Proofs.Remembered

/-
The scan of the descriptor ring for the newest superblock, on an image of which nothing is known.
A slot offers what its block holds, and the scan keeps the best of the slots that it has seen.
-/
namespace ObjectStore

open Session

/-- The header of an object is in the front of its block. -/
theorem parse_front {e : ByteOrder} {b : Bytes} (roomy : ObjectHeader.size ≤ b.size)
    (addressable : b.size < Bytes.addressLimit) :
    ObjectHeader.parse e (b.extract 0 ObjectHeader.size) = ObjectHeader.parse e b := by
  have record : ObjectHeader.codec.size = ObjectHeader.size := rfl
  have header_size : ObjectHeader.size = 32 := rfl
  have front_size : (b.extract 0 ObjectHeader.size).size = ObjectHeader.size := by
    rw [Bytes.size_extract_of_le roomy, Nat.sub_zero]
  rw [ObjectHeader.parse, ObjectHeader.parse, Codec.decode, Codec.decode, Bytes.require,
    Bytes.require, if_neg (by omega), if_neg (by omega), ok_bind, ok_bind]
  refine ObjectHeader.codec_lawful.same_bytes ⟨by omega, by omega, by omega, addressable, ?_⟩
  intro i lt
  rw [Bytes.getPadded_extract (by omega), Nat.zero_add]

structure SuperblockIn (e : ByteOrder) (b : Bytes) (s : Superblock) : Prop where
  header : ObjectHeader.parse e b = .ok s.header
  code : s.header.typeCode = TypeWord.containerSuperblock
  roomy : Superblock.codec.size ≤ b.size
  magic : e.read32 b Superblock.magicOffset = .ok containerMagic
  legal : s.blockSize ∈ BlockSize.legal

theorem superblock_of_parse {e : ByteOrder} {b : Bytes} {s : Superblock}
    (parsed : Superblock.parse e b = .ok s) : SuperblockIn e b s := by
  have header_size : ObjectHeader.size = 32 := rfl
  have width := Superblock.size_codec
  obtain ⟨decoded, typed, legal, -⟩ := Superblock.parse_eq_ok.mp parsed
  obtain ⟨_, room, mapped⟩ := bind_eq_ok.mp decoded
  have roomy := Bytes.require_eq_ok.mp room
  obtain ⟨fields, read, same⟩ := map_eq_ok.mp mapped
  have marked : fields.2.1 = containerMagic := congrArg Prod.fst same
  obtain rfl : _ = s := congrArg Prod.snd same
  refine ⟨ObjectHeader.parse_of_front read (by omega), typed, roomy, ?_, legal⟩
  obtain ⟨_, -, read⟩ := bind_eq_ok.mp read
  obtain ⟨tail, read, same⟩ := bind_eq_ok.mp read
  obtain ⟨stored, first, read⟩ := bind_eq_ok.mp read
  obtain ⟨_, -, same'⟩ := bind_eq_ok.mp read
  cases same'
  cases same
  rw [← marked]
  exact first

/-- The order in which a superblock can be read is the one that is detected. -/
theorem detectOrder_of_parse {e : ByteOrder} {b : Bytes} {s : Superblock}
    (addressable : b.size < Bytes.addressLimit) (parsed : Superblock.parse e b = .ok s) :
    Superblock.detectOrder b = .ok e := by
  have known := superblock_of_parse parsed
  have roomy := known.roomy
  have width := Superblock.size_codec
  have place : Superblock.magicOffset = 32 := rfl
  exact ObjectDraft.detectOrder_of_magic (by omega) addressable known.magic

namespace Container

/-- A superblock of the container's block size lies on a block and can be believed. -/
structure Stands (source : BlockSource (Except StoreError)) (c : Container)
    (candidate : Candidate) : Prop where
  held : ∃ block, source.readBlock candidate.address = .ok block ∧
    Object.verifies c.order block = true ∧ Superblock.parse c.order block = .ok candidate.superblock
  same_size : candidate.superblock.blockSize = c.superblock.blockSize

/-- Nothing stands on a block that does not start with the header of a superblock. -/
theorem Stands.code {source : BlockSource (Except StoreError)} {c : Container}
    {candidate : Candidate} (stands : c.Stands source candidate) {b : Bytes} {h : ObjectHeader}
    (stored : source.readBlock candidate.address = .ok b)
    (parsed : ObjectHeader.parse c.order b = .ok h) :
    h.typeCode = TypeWord.containerSuperblock := by
  obtain ⟨⟨b', stored', -, superblock⟩, -⟩ := stands
  rw [stored] at stored'
  cases stored'
  have known := superblock_of_parse superblock
  have header := known.header
  rw [parsed] at header
  cases header
  exact known.code

/-- On one block stands one superblock at most. -/
theorem Stands.unique {source : BlockSource (Except StoreError)} {c : Container}
    {a b : Candidate} (stands : c.Stands source a) (stands' : c.Stands source b)
    (same : a.address = b.address) : a = b := by
  obtain ⟨⟨block, stored, -, parsed⟩, -⟩ := stands
  obtain ⟨⟨block', stored', -, parsed'⟩, -⟩ := stands'
  rw [← same, stored] at stored'
  cases stored'
  have superblock_eq := Except.ok.inj (parsed.symm.trans parsed')
  obtain ⟨address, s⟩ := a
  obtain ⟨address', s'⟩ := b
  dsimp only at same superblock_eq
  rw [same, superblock_eq]

/-- A superblock that can be believed lies in a slot of the descriptor ring. -/
structure OnRing (source : BlockSource (Except StoreError)) (c : Container) (slot : Nat)
    (candidate : Candidate) : Prop where
  within : slot < c.superblock.descBlocks.toNat
  address_eq : c.superblock.descBlock slot.toUInt32 = some candidate.address
  stands : Stands source c candidate

def candidateIn (c : Container) (address : BlockAddress) (b : Bytes) : Option Candidate :=
  match Superblock.parse c.order b with
  | .error _ => none
  | .ok s =>
    if Object.verifies c.order b = true ∧ s.blockSize = c.superblock.blockSize
    then some ⟨address, s⟩ else none

theorem candidateIn_eq_some {c : Container} {address : BlockAddress} {b : Bytes}
    {candidate : Candidate} : c.candidateIn address b = some candidate ↔
      candidate.address = address ∧ Object.verifies c.order b = true ∧
        Superblock.parse c.order b = .ok candidate.superblock ∧
        candidate.superblock.blockSize = c.superblock.blockSize := by
  obtain ⟨address', s'⟩ := candidate
  unfold candidateIn
  cases parsed : Superblock.parse c.order b with
  | error err => simp
  | ok s =>
    dsimp only
    constructor
    · intro same
      split at same
      · rename_i holds
        cases same
        exact ⟨rfl, holds.1, rfl, holds.2⟩
      · cases same
    · rintro ⟨rfl, verified, same, same_size⟩
      have s_eq : s = s' := Except.ok.inj same
      subst s_eq
      exact if_pos ⟨verified, same_size⟩

section Slots

variable {I : Memory → Prop} (noted : ∀ access memory, I memory → I (memory.note access))
  {contents : Bytes} {size : BlockSize} {source : BlockSource (Except StoreError)} {c : Container}
  (opened : BlockSource.ofBytes contents size = .ok source)
  (source_eq : c.resolver.source = source.remembered) (roomy : ObjectHeader.size ≤ size.toNat)
  {address : BlockAddress} {b : Bytes} (stored : source.readBlock address = .ok b)

include noted opened source_eq roomy stored

/-- The front of a block is read first, and tells its header. -/
theorem yields_front :
    Yields I (c.resolver.source.readBytes address 0 ObjectHeader.size.toUInt32)
      (.ok (b.extract 0 ObjectHeader.size)) ∧
    ObjectHeader.parse c.order (b.extract 0 ObjectHeader.size) = ObjectHeader.parse c.order b := by
  have header_size : ObjectHeader.size = 32 := rfl
  have width : ObjectHeader.size.toUInt32.toNat = 32 := rfl
  have none_skipped : (0 : UInt32).toNat = 0 := rfl
  have word : size.toNat < 4294967296 := UInt32.toNat_lt size.bytes
  have limit : Bytes.addressLimit = 18446744073709551616 := rfl
  have length_eq := (BlockSource.readBlock_holds opened stored).length_eq
  have part : (0 : UInt32).toNat + ObjectHeader.size.toUInt32.toNat ≤ size.toNat := by omega
  have front := BlockSource.readBytes_of_readBlock opened stored part
  refine ⟨fun memory holds => ?_, parse_front (by omega) (by omega)⟩
  rw [source_eq, BlockSource.perform_remembered_bytes]
  exact ⟨noted _ _ holds, front⟩

/-- The header that is looked at first rules out no superblock. -/
theorem yields_candidateIn : Yields I (c.candidateAt address) (.ok (c.candidateIn address b)) := by
  obtain ⟨front, header_eq⟩ := yields_front noted opened source_eq roomy stored
  have block : Yields I (c.resolver.source.readBlock address) (.ok b) := by
    intro memory holds
    rw [source_eq, BlockSource.perform_remembered_block]
    exact ⟨noted _ _ holds, stored⟩
  refine front.bind ?_
  rw [header_eq]
  unfold candidateIn
  cases parsed : Superblock.parse c.order b with
  | ok s =>
    have known := superblock_of_parse parsed
    rw [known.header]
    dsimp only
    rw [if_neg (fun other => other known.code)]
    refine block.bind ?_
    rw [parsed]
    dsimp only
    cases verified : Object.verifies c.order b with
    | false => exact yields_pure _
    | true =>
      by_cases same_size : s.blockSize = c.superblock.blockSize
      · rw [if_neg (by decide), if_neg (fun other => other same_size), if_pos ⟨rfl, same_size⟩]
        exact yields_pure _
      · rw [if_neg (by decide), if_pos same_size, if_neg fun both => same_size both.2]
        exact yields_pure _
  | error err =>
    cases ObjectHeader.parse c.order b with
    | error _ => exact yields_pure _
    | ok header =>
      dsimp only
      split
      · exact yields_pure _
      · refine block.bind ?_
        split
        · exact yields_pure _
        · rw [parsed]
          exact yields_pure _

/-- A look at a block that can be read finds the superblock that stands there, if one does. -/
theorem yields_candidateAt : ∃ found, Yields I (c.candidateAt address) (.ok found) ∧
    ∀ candidate, found = some candidate ↔
      candidate.address = address ∧ c.Stands source candidate := by
  refine ⟨_, yields_candidateIn noted opened source_eq roomy stored, fun candidate => ?_⟩
  rw [candidateIn_eq_some]
  constructor
  · rintro ⟨rfl, verified, parsed, same_size⟩
    exact ⟨rfl, ⟨b, stored, verified, parsed⟩, same_size⟩
  · rintro ⟨rfl, ⟨b', stored', verified, parsed⟩, same_size⟩
    rw [stored] at stored'
    cases stored'
    exact ⟨rfl, verified, parsed, same_size⟩

end Slots

/-- The best of the candidates in the slots before `stop`: none of them is newer, and none in an
earlier slot is as new. -/
def Best (source : BlockSource (Except StoreError)) (c : Container) (stop : Nat) :
    Option Candidate → Prop
  | none => ∀ slot < stop, ∀ other, ¬c.OnRing source slot other
  | some best => ∃ slot < stop, c.OnRing source slot best ∧
      ∀ slot' < stop, ∀ other, c.OnRing source slot' other →
        other.xid ≤ best.xid ∧ (slot' < slot → other.xid < best.xid)

/-- What a look at a slot of the ring comes to: the superblock in it, or nothing. -/
structure Offers (I : Memory → Prop) (source : BlockSource (Except StoreError)) (c : Container)
    (slot : Nat) (found : Option Candidate) : Prop where
  yields : ∀ address, c.superblock.descBlock slot.toUInt32 = some address →
    Yields I (c.candidateAt address) (.ok found)
  unplaced : c.superblock.descBlock slot.toUInt32 = none → found = none
  exact : ∀ candidate, found = some candidate ↔ c.OnRing source slot candidate

/-- Every slot offers something definite whose block, if it has one, can be read. -/
theorem offers_of_readable {I : Memory → Prop}
    (noted : ∀ access memory, I memory → I (memory.note access)) {contents : Bytes}
    {size : BlockSize} {source : BlockSource (Except StoreError)} {c : Container}
    (opened : BlockSource.ofBytes contents size = .ok source)
    (source_eq : c.resolver.source = source.remembered) (roomy : ObjectHeader.size ≤ size.toNat)
    {slot : Nat} (within : slot < c.superblock.descBlocks.toNat)
    (readable : ∀ address, c.superblock.descBlock slot.toUInt32 = some address →
      ∃ b, source.readBlock address = .ok b) : ∃ found, Offers I source c slot found := by
  cases placed : c.superblock.descBlock slot.toUInt32 with
  | none =>
    refine ⟨none, fun address same => ?_, fun _ => rfl, fun candidate =>
      iff_of_false (fun no => nomatch no) fun on_ring => ?_⟩
    · rw [placed] at same
      cases same
    · have same := on_ring.address_eq
      rw [placed] at same
      cases same
  | some address =>
    obtain ⟨b, stored⟩ := readable address placed
    obtain ⟨found, yields, is_exact⟩ := yields_candidateAt noted opened source_eq roomy stored
    refine ⟨found, fun address' same => ?_, fun no => ?_, fun candidate => ?_⟩
    · rw [placed] at same
      cases same
      exact yields
    · rw [placed] at no
      cases no
    · rw [is_exact]
      constructor
      · rintro ⟨rfl, stands⟩
        exact ⟨within, placed, stands⟩
      · intro on_ring
        have same := on_ring.address_eq
        rw [placed] at same
        exact ⟨(Option.some.inj same).symm, on_ring.stands⟩

section Ring

variable {I : Memory → Prop} {source : BlockSource (Except StoreError)} {c : Container}

/-- A slot that offers nothing leaves the best of the slots before it the best. -/
theorem Best.skip {slot : Nat} {best : Option Candidate} (sofar : Best source c slot best)
    (offers : Offers I source c slot none) : Best source c (slot + 1) best := by
  have nothing : ∀ other, ¬c.OnRing source slot other := fun other on_ring =>
    nomatch (offers.exact other).mpr on_ring
  cases best with
  | none =>
    intro slot' lt other on_ring
    rcases Nat.lt_succ_iff_lt_or_eq.mp lt with before | here
    · exact sofar slot' before other on_ring
    · exact nothing other (here ▸ on_ring)
  | some best =>
    obtain ⟨place, before, on_ring, greatest⟩ := sofar
    refine ⟨place, by omega, on_ring, fun slot' lt other on_ring' => ?_⟩
    rcases Nat.lt_succ_iff_lt_or_eq.mp lt with before' | here
    · exact greatest slot' before' other on_ring'
    · exact absurd (here ▸ on_ring') (nothing other)

/-- The newer of the best so far and what a slot offers is the best with that slot. -/
theorem Best.step {slot : Nat} {best : Option Candidate} {next : Candidate}
    (sofar : Best source c slot best) (offers : Offers I source c slot (some next)) :
    Best source c (slot + 1) (some (newer best next)) := by
  have here : c.OnRing source slot next := (offers.exact next).mp rfl
  have only : ∀ other, c.OnRing source slot other → other = next := fun other on_ring =>
    (Option.some.inj ((offers.exact other).mpr on_ring)).symm
  cases best with
  | none =>
    refine ⟨slot, Nat.lt_succ_self slot, here, fun slot' lt other on_ring => ?_⟩
    rcases Nat.lt_succ_iff_lt_or_eq.mp lt with before | same
    · exact absurd on_ring (sofar slot' before other)
    · subst same
      rw [only other on_ring]
      exact ⟨UInt64.le_refl _, fun no => absurd no (Nat.lt_irrefl _)⟩
  | some best =>
    obtain ⟨place, before, on_ring, greatest⟩ := sofar
    unfold newer
    dsimp only
    split
    · rename_i is_newer
      refine ⟨slot, Nat.lt_succ_self slot, here, fun slot' lt other on_ring' => ?_⟩
      rcases Nat.lt_succ_iff_lt_or_eq.mp lt with before' | same
      · have older := UInt64.lt_of_le_of_lt (greatest slot' before' other on_ring').1 is_newer
        exact ⟨UInt64.le_of_lt older, fun _ => older⟩
      · subst same
        rw [only other on_ring']
        exact ⟨UInt64.le_refl _, fun no => absurd no (Nat.lt_irrefl _)⟩
    · rename_i not_newer
      refine ⟨place, by omega, on_ring, fun slot' lt other on_ring' => ?_⟩
      rcases Nat.lt_succ_iff_lt_or_eq.mp lt with before' | same
      · exact greatest slot' before' other on_ring'
      · subst same
        rw [only other on_ring']
        exact ⟨UInt64.not_lt.mp not_newer, fun no => absurd no (by omega)⟩

/-- The scan of the slots from `slot` on ends with the best of all of them. -/
theorem yields_latestFrom : ∀ (left slot : Nat) (best : Option Candidate),
    Best source c slot best →
    (∀ slot', slot ≤ slot' → slot' < slot + left → ∃ found, Offers I source c slot' found) →
    ∃ last, Yields I (c.latestFrom slot.toUInt32 best left) (.ok last) ∧
      Best source c (slot + left) last := by
  intro left
  induction left with
  | zero =>
    intro slot best sofar _
    exact ⟨best, yields_pure best, sofar⟩
  | succ left ih =>
    intro slot best sofar each
    have next_slot : (slot + 1).toUInt32 = slot.toUInt32 + 1 := MapChain.toUInt32_succ slot
    have later : ∀ slot', slot + 1 ≤ slot' → slot' < slot + 1 + left →
        ∃ found, Offers I source c slot' found :=
      fun slot' from_next lt => each slot' (by omega) (by omega)
    have stop : slot + 1 + left = slot + (left + 1) := by omega
    obtain ⟨found, offers⟩ := each slot (Nat.le_refl _) (by omega)
    rw [latestFrom, ← next_slot, ← stop]
    cases placed : c.superblock.descBlock slot.toUInt32 with
    | none =>
      rw [offers.unplaced placed] at offers
      exact ih (slot + 1) best (sofar.skip offers) later
    | some address =>
      cases found with
      | none =>
        obtain ⟨last, yields, is_best⟩ := ih (slot + 1) best (sofar.skip offers) later
        exact ⟨last, (offers.yields address placed).bind yields, is_best⟩
      | some next =>
        obtain ⟨last, yields, is_best⟩ := ih (slot + 1) _ (sofar.step offers) later
        exact ⟨last, (offers.yields address placed).bind yields, is_best⟩

/-- What the scan of a ring comes to whose slots can all be read. -/
theorem yields_latestCheckpoint
    (each : ∀ slot < c.superblock.descBlocks.toNat, ∃ found, Offers I source c slot found) :
    ∃ last, Best source c c.superblock.descBlocks.toNat last ∧
      Yields I c.latestCheckpoint (match last with
        | some best => .ok best
        | none => .error (.corrupt c.superblock.descBase
            "no valid superblock in the checkpoint descriptor area")) := by
  have start : Best source c 0 none := fun _ lt => absurd lt (Nat.not_lt_zero _)
  obtain ⟨last, yields, is_best⟩ :=
    yields_latestFrom c.superblock.descBlocks.toNat 0 none start
      (fun slot _ lt => each slot (by omega))
  rw [Nat.zero_add] at is_best
  refine ⟨last, is_best, Yields.bind yields ?_⟩
  cases last with
  | none => exact yields_throw _
  | some best => exact yields_pure best

end Ring

end Container

end ObjectStore
