import ObjectStore.Proofs.ImageReads

/-
The steps in which a reference is resolved, and what is known when each has succeeded.
-/
namespace ObjectStore

open Session

theorem ceil_eq (length : Nat) {n : Nat} (pos : 0 < n) :
    (length + n - 1) / n = length / n + if length % n = 0 then 0 else 1 := by
  have whole := Nat.div_add_mod length n
  have rest := Nat.mod_lt length pos
  split
  · rename_i even
    have parts : length + n - 1 = n * (length / n) + (n - 1) := by omega
    rw [parts, Nat.mul_add_div pos, Nat.div_eq_of_lt (by omega : n - 1 < n)]
  · rename_i uneven
    have parts : length + n - 1 = n * (length / n + 1) + (length % n - 1) := by
      rw [Nat.mul_add, Nat.mul_one]
      omega
    rw [parts, Nat.mul_add_div pos, Nat.div_eq_of_lt (by omega : length % n - 1 < n),
      Nat.add_zero]

/-- Rounding up stays within a word, as only a size of two or more leaves a rest. -/
theorem BlockSize.toNat_blocksFor {size : BlockSize} (some_bytes : 0 < size.toNat)
    (count : UInt64) :
    (size.blocksFor count).toNat = (count.toNat + size.toNat - 1) / size.toNat := by
  have wide : size.bytes.toUInt64.toNat = size.toNat := UInt32.toNat_toUInt64 _
  have count_lt : count.toNat < 2 ^ 64 := count.toNat_lt
  have rest_eq : (count % size.bytes.toUInt64).toNat = count.toNat % size.toNat := by
    rw [UInt64.toNat_mod, wide]
  rw [blocksFor, ceil_eq _ some_bytes, ← rest_eq]
  split
  · rename_i even
    rw [even, if_pos (show UInt64.toNat 0 = 0 from rfl), UInt64.toNat_div, wide, Nat.add_zero]
  · rename_i uneven
    have some_rest : ¬(count % size.bytes.toUInt64).toNat = 0 :=
      fun none => uneven (UInt64.toNat_inj.mp none)
    have parts := Nat.div_add_mod count.toNat size.toNat
    have quotient_le := Nat.le_mul_of_pos_left (count.toNat / size.toNat) some_bytes
    rw [if_neg some_rest, UInt64.toNat_add, UInt64.toNat_div, wide]
    exact Nat.mod_eq_of_lt (by change _ + 1 < _; omega)

namespace Resolver

def blocksOf (size : BlockSize) (length : UInt32) : Nat :=
  (length.toNat + size.toNat - 1) / size.toNat

variable {image : Bytes} {size : BlockSize} {source : BlockSource (Except StoreError)}
  {r : Resolver} {memory later : Memory}

theorem toNat_blocksFor {size : BlockSize} (some_bytes : 0 < size.toNat) (length : UInt32) :
    (size.blocksFor length.toUInt64).toNat = blocksOf size length := by
  rw [BlockSize.toNat_blocksFor some_bytes, UInt32.toNat_toUInt64, blocksOf]

theorem blocksOf_le {size : BlockSize} (some_bytes : 0 < size.toNat) (length : UInt32) :
    blocksOf size length ≤ length.toNat := by
  have whole := Nat.div_add_mod length.toNat size.toNat
  have rest := Nat.mod_lt length.toNat some_bytes
  have quotient := Nat.le_mul_of_pos_left (length.toNat / size.toNat) some_bytes
  rw [blocksOf, ceil_eq _ some_bytes]
  split
  · omega
  · omega

theorem max_one {n : UInt32} (pos : 0 < n.toNat) : max n 1 = n := by
  have le : 1 ≤ n := UInt32.le_iff_toNat_le.mpr pos
  have max_eq : max n 1 = if n ≤ 1 then 1 else n := rfl
  rw [max_eq]
  split
  · rename_i one
    exact UInt32.le_antisymm le one
  · rfl

theorem one_le_max (n : UInt32) : 0 < (max n 1).toNat := by
  by_cases pos : 0 < n.toNat
  · rw [max_one pos]
    exact pos
  · have zero : n = 0 := UInt32.toNat_inj.mp (Nat.eq_zero_of_not_pos pos)
    rw [zero]
    decide

/-- The block size that a placement is computed with, which is never zero. -/
def placingSize (r : Resolver) : BlockSize := ⟨max r.source.blockSize 1⟩

theorem placed_eq_ok {address : BlockAddress} {length : UInt32} {p : Placement}
    (run : (r.placed address length).perform memory = (.ok p, later)) :
    p.address = address ∧ p.blocks.toNat = blocksOf r.placingSize length ∧
      0 < p.blocks.toNat := by
  have some_bytes : 0 < r.placingSize.toNat := one_le_max _
  unfold placed at run
  dsimp only at run
  split at run
  · cases run
  · rename_i some_blocks
    cases run
    have value := toNat_blocksFor some_bytes length
    have small : length.toNat < 4294967296 := UInt32.toNat_lt length
    have le := blocksOf_le some_bytes length
    have kept : (r.placingSize.blocksFor length.toUInt64).toUInt32.toNat
        = blocksOf r.placingSize length := by
      rw [UInt64.toNat_toUInt32, value]
      exact Nat.mod_eq_of_lt (by omega)
    have nonzero : (r.placingSize.blocksFor length.toUInt64).toNat ≠ 0 :=
      fun none => some_blocks (UInt64.toNat_inj.mp none)
    refine ⟨rfl, kept, ?_⟩
    change 0 < (r.placingSize.blocksFor length.toUInt64).toUInt32.toNat
    omega

theorem readPlaced_eq_ok (opened : BlockSource.ofBytes image size = .ok source)
    (reads : r.source = source.remembered) {p : Placement} {b : Bytes}
    (run : (r.readPlaced p).perform memory = (.ok b, later)) :
    image.HoldsBlocks size.toNat p.address.toNat p.blocks.toNat b := by
  rw [readPlaced, reads] at run
  split at run
  · rename_i single
    rw [BlockSource.perform_remembered_block] at run
    rw [single]
    exact BlockSource.readBlock_holds opened (congrArg Prod.fst run)
  · rw [BlockSource.perform_remembered_range] at run
    exact BlockSource.readRange_holds opened (congrArg Prod.fst run)

theorem verify_eq_ok {e : ByteOrder} {b : Bytes} {block : BlockAddress} {what : String}
    (run : (Object.verify e b block what : Reading Unit).perform memory = (.ok (), later)) :
    Object.verifies e b = true ∧ later = memory := by
  unfold Object.verify at run
  split at run
  · rename_i verified
    cases run
    exact ⟨verified, rfl⟩
  · cases run

def identityOf (reference : Reference) (address : BlockAddress) (h : ObjectHeader) :
    Except StoreError Unit :=
  match identityFault? reference h with
  | none => .ok ()
  | some detail => .error (.corrupt address detail)

theorem perform_checkIdentity (reference : Reference) (address : BlockAddress)
    (h : ObjectHeader) (s : Memory) :
    (checkIdentity reference address h).perform s = (identityOf reference address h, s) := by
  unfold checkIdentity identityOf
  cases identityFault? reference h <;> rfl

theorem checkIdentity_eq_ok {reference : Reference} {address : BlockAddress} {h : ObjectHeader}
    (run : (checkIdentity reference address h).perform memory = (.ok (), later)) :
    identityFault? reference h = none ∧ later = memory := by
  unfold checkIdentity at run
  split at run
  · rename_i sound
    cases run
    exact ⟨sound, rfl⟩
  · cases run

theorem rejectReserved_eq_ok {oid : ObjectId}
    (run : (rejectReserved oid).perform memory = (.ok (), later)) :
    reservedIds ≤ oid ∧ later = memory := by
  rw [rejectReserved, isReserved] at run
  split at run
  · cases run
  · rename_i free
    cases run
    exact ⟨UInt64.not_lt.mp (by simpa using free), rfl⟩

theorem identityFault?_eq_none {reference : Reference} {h : ObjectHeader}
    (sound : identityFault? reference h = none) : h.oid = reference.oid := by
  -- Whatever else is asked of a header, its name is looked at first.
  cases reference
  all_goals
    simp only [identityFault?] at sound
    split at sound
    · cases sound
    · rename_i same
      exact Decidable.not_not.mp same

theorem reserved_of_lookup {oid : ObjectId} {xid : TransactionId} {mapping : Mapping}
    (run : (r.lookupMapping oid xid).perform memory = (.ok mapping, later)) :
    reservedIds ≤ oid := by
  obtain ⟨_, _, free, -⟩ := perform_bind_ok.mp run
  exact (rejectReserved_eq_ok free).1

theorem place_physical_eq_ok {lookup : Lookup} {address : BlockAddress} {p : Placement}
    (run : (r.place lookup (.physical address)).perform memory = (.ok p, later)) :
    address ≠ 0 ∧ p = ⟨address, 1⟩ ∧ later = memory := by
  unfold place at run
  dsimp only at run
  split at run
  · cases run
  · rename_i nonzero
    cases run
    exact ⟨nonzero, rfl, rfl⟩

theorem place_virtual_eq_ok {oid : ObjectId} {xid : TransactionId} {p : Placement}
    (run : (r.place r.lookupMapping (.virtual oid xid)).perform memory = (.ok p, later)) :
    ∃ mapping, (∃ mid, (r.lookupMapping oid xid).perform memory = (.ok mapping, mid)) ∧
      mapping.isDeleted = false ∧ mapping.isEncrypted = false ∧ mapping.hasNoHeader = false ∧
      p.address = mapping.address ∧ p.blocks.toNat = blocksOf r.placingSize mapping.size ∧
      0 < p.blocks.toNat := by
  obtain ⟨mapping, mid, looked, run⟩ := perform_bind_ok.mp run
  refine ⟨mapping, ⟨mid, looked⟩, ?_⟩
  cases deleted : mapping.isDeleted
  · cases encrypted : mapping.isEncrypted
    · cases headless : mapping.hasNoHeader
      · rw [deleted, encrypted, headless] at run
        exact ⟨rfl, rfl, rfl, placed_eq_ok run⟩
      · rw [deleted, encrypted, headless] at run
        cases run
    · rw [deleted, encrypted] at run
      cases run
  · rw [deleted] at run
    cases run

theorem place_ephemeral_eq_ok {lookup : Lookup} {oid : ObjectId} {p : Placement}
    (run : (r.place lookup (.ephemeral oid)).perform memory = (.ok p, later)) :
    reservedIds ≤ oid ∧ ∃ chain mapping, r.checkpoint = some chain ∧
      (∃ mid, (chain.resolve r.source oid).perform memory = (.ok mapping, mid)) ∧
      p.address = mapping.address ∧ p.blocks.toNat = blocksOf r.placingSize mapping.size ∧
      0 < p.blocks.toNat := by
  obtain ⟨_, mid, free, run⟩ := perform_bind_ok.mp run
  obtain ⟨unreserved, same⟩ := rejectReserved_eq_ok free
  rw [same] at run
  refine ⟨unreserved, ?_⟩
  cases bound : r.checkpoint with
  | none =>
    rw [bound] at run
    cases run
  | some chain =>
    rw [bound] at run
    obtain ⟨mapping, mid', looked, run⟩ := perform_bind_ok.mp run
    exact ⟨chain, mapping, rfl, ⟨mid', looked⟩, placed_eq_ok run⟩

theorem virtual_of_identity {oid : ObjectId} {xid : TransactionId} {h : ObjectHeader}
    (sound : identityFault? (.virtual oid xid) h = none) :
    h.xid ≤ xid ∧ h.storage? = some .virtual := by
  simp only [identityFault?] at sound
  split at sound
  · cases sound
  · split at sound
    · cases sound
    · rename_i older
      split at sound
      · cases sound
      · rename_i stored
        exact ⟨UInt64.not_lt.mp older, Decidable.not_not.mp stored⟩

/-- A virtual object that is named as asked for and not newer passes. -/
theorem identityFault_virtual {oid : ObjectId} {xid : TransactionId} {h : ObjectHeader}
    (named : h.oid = oid) (older : h.xid ≤ xid) (stored : h.storage? = some .virtual) :
    identityFault? (.virtual oid xid) h = none := by
  rw [identityFault?, if_neg (fun other => other named), if_neg (UInt64.not_lt.mpr older),
    if_neg (fun other => other stored)]

theorem ephemeral_of_identity {oid : ObjectId} {h : ObjectHeader}
    (sound : identityFault? (.ephemeral oid) h = none) : h.storage? = some .ephemeral := by
  simp only [identityFault?] at sound
  split at sound
  · cases sound
  · split at sound
    · cases sound
    · rename_i stored
      exact Decidable.not_not.mp stored

theorem resolve_eq_ok {reference : Reference} {o : ResolvedObject}
    (run : (r.resolve reference).perform memory = (.ok o, later)) :
    ∃ p placed, (r.place r.lookupMapping reference).perform memory = (.ok p, placed) ∧
      (∃ read, (r.readPlaced p).perform placed = (.ok o.bytes, read)) ∧
      Object.verifies r.order o.bytes = true ∧
      ObjectHeader.parse r.order o.bytes = .ok o.header ∧
      identityFault? reference o.header = none ∧ o.reference = reference ∧
      o.address = p.address := by
  obtain ⟨p, placed, place, run⟩ := perform_bind_ok.mp run
  obtain ⟨bytes, read, fetch, run⟩ := perform_bind_ok.mp run
  obtain ⟨_, mid, verify, run⟩ := perform_bind_ok.mp run
  obtain ⟨verified, same⟩ := verify_eq_ok verify
  obtain ⟨header, mid', decoded, run⟩ := perform_bind_ok.mp run
  obtain ⟨parsed, same'⟩ := perform_decodedAt_ok decoded
  obtain ⟨_, _, identity, run⟩ := perform_bind_ok.mp run
  obtain ⟨sound, -⟩ := checkIdentity_eq_ok identity
  cases run
  exact ⟨p, placed, place, ⟨read, fetch⟩, verified, parsed, sound, rfl, rfl⟩

end Resolver

end ObjectStore
