import ObjectStore.Proofs.MappingOrigins
import ObjectStore.Proofs.RingSlots

/-
The blocks of the descriptor ring that a chain of map blocks goes through. A chain goes once around
the ring at most, from any slot and with the end of the address space in the way or not, so no scan
comes back to a block that it has read.
-/
namespace ObjectStore

open Session

namespace BlockSource

variable {σ : Type}

def watched (s : BlockSource (Session σ)) : BlockSource (Session (σ × List Access)) :=
  let noting (access : Access) (x : Session σ Bytes) : Session (σ × List Access) Bytes := do
    Session.change fun state => (state.1, state.2 ++ [access])
    x.onLeft
  { blockSize := s.blockSize
    blockCount := s.blockCount
    readBlock := fun address => noting (.block address) (s.readBlock address)
    readRange := fun start count => noting (.range start count) (s.readRange start count)
    readBytes := fun address offset len =>
      noting (.bytes address offset len) (s.readBytes address offset len) }

theorem perform_watched_block (s : BlockSource (Session σ)) (address : BlockAddress) (state : σ)
    (log : List Access) : (s.watched.readBlock address).perform (state, log)
      = (((s.readBlock address).perform state).1,
          (((s.readBlock address).perform state).2, log ++ [.block address])) := rfl

end BlockSource

namespace MapChain

variable {c : MapChain} {σ α β : Type} {source : BlockSource (Session σ)} {i left : Nat}

/-- The addresses of the chain's blocks from number `i` on, as far as they have any. -/
def slots (c : MapChain) (i n : Nat) : List BlockAddress :=
  (List.range' i n).filterMap fun k => c.blockAddress k.toUInt32

/-- A watched session does what a plain one does, and asks for blocks of the chain from number `i`
on, one after the other and no more than `left` of them. -/
def Asks (c : MapChain) (i left : Nat) (x : Session (σ × List Access) α)
    (plain : Session σ α) : Prop :=
  ∀ state log, ∃ n ≤ left, x.perform (state, log)
    = ((plain.perform state).1, ((plain.perform state).2, log ++ (c.slots i n).map .block))

theorem slots_succ (c : MapChain) (i n : Nat) :
    c.slots i (n + 1) = (c.blockAddress i.toUInt32).toList ++ c.slots (i + 1) n := by
  rw [slots, List.range'_succ, List.filterMap_cons]
  cases c.blockAddress i.toUInt32 <;> rfl

theorem asks_nothing {x : Session (σ × List Access) α} {plain : Session σ α}
    (same : ∀ state log, x.perform (state, log)
      = ((plain.perform state).1, ((plain.perform state).2, log))) : c.Asks i left x plain := by
  intro state log
  refine ⟨0, Nat.zero_le left, ?_⟩
  rw [same]
  exact congrArg (fun log => (_, _, log)) (List.append_nil log).symm

theorem asks_pure (a : α) : c.Asks i left (pure a : Session (σ × List Access) α) (pure a) :=
  asks_nothing fun _ _ => rfl

theorem asks_throw (e : StoreError) :
    c.Asks i left (throw e : Session (σ × List Access) α) (throw e) :=
  asks_nothing fun _ _ => rfl

/-- A block is asked for at its address, if it has one. -/
theorem perform_readBlock (source : BlockSource (Session σ)) (i : UInt32) (state : σ)
    (log : List Access) : (c.readBlock source.watched i).perform (state, log)
      = (((c.readBlock source i).perform state).1, (((c.readBlock source i).perform state).2,
          log ++ (c.blockAddress i).toList.map .block)) := by
  unfold readBlock
  cases c.blockAddress i with
  | none =>
    exact congrArg (fun log => (_, _, log)) (List.append_nil log).symm
  | some address =>
    dsimp only
    rw [perform_bind, perform_bind, BlockSource.perform_watched_block]
    rcases (source.readBlock address).perform state with ⟨e | block, later⟩
    · rfl
    · dsimp only
      unfold Object.verify
      by_cases verified : Object.verifies c.order block = true
      · rw [if_pos verified, if_pos verified]
        cases MapBlock.parse c.order block <;> rfl
      · rw [if_neg verified, if_neg verified]
        rfl

/-- A step to the next block, behind which there is one block less to be read. -/
theorem Asks.next {f : MapBlock → Session (σ × List Access) α} {plain : MapBlock → Session σ α}
    (rest : ∀ block, c.Asks (i + 1) left (f block) (plain block)) :
    c.Asks i (left + 1) (c.readBlock source.watched i.toUInt32 >>= f)
      (c.readBlock source i.toUInt32 >>= plain) := by
  intro state log
  rw [perform_bind, perform_bind, perform_readBlock]
  rcases (c.readBlock source i.toUInt32).perform state with ⟨e | block, later⟩
  · refine ⟨1, Nat.succ_le_succ (Nat.zero_le left), ?_⟩
    rw [slots_succ]
    simp [slots]
  · obtain ⟨n, le, ran⟩ := rest block later (log ++ (c.blockAddress i.toUInt32).toList.map .block)
    refine ⟨n + 1, Nat.succ_le_succ le, ?_⟩
    dsimp only
    rw [ran, slots_succ, List.map_append, List.append_assoc]

theorem Asks.map {x : Session (σ × List Access) α} {plain : Session σ α}
    (asks : c.Asks i left x plain) (view : α → β) :
    c.Asks i left (x >>= fun a => pure (view a)) (plain >>= fun a => pure (view a)) := by
  intro state log
  obtain ⟨n, le, ran⟩ := asks state log
  refine ⟨n, le, ?_⟩
  rw [perform_bind, perform_bind, ran]
  rcases plain.perform state with ⟨e | a, later⟩ <;> rfl

theorem asks_resolveFrom (oid : ObjectId) : c.Asks i left
    (c.resolveFrom source.watched oid i.toUInt32 left)
    (c.resolveFrom source oid i.toUInt32 left) := by
  induction left generalizing i with
  | zero => exact asks_throw _
  | succ left ih =>
    refine Asks.next fun block => ?_
    cases block.find oid with
    | some mapping => exact asks_pure _
    | none =>
      dsimp only
      split
      · exact asks_throw _
      · rw [← toUInt32_succ]
        exact ih

theorem asks_mappingsFrom : c.Asks i left (c.mappingsFrom source.watched i.toUInt32 left)
    (c.mappingsFrom source i.toUInt32 left) := by
  induction left generalizing i with
  | zero => exact asks_throw _
  | succ left ih =>
    refine Asks.next fun block => ?_
    split
    · exact asks_pure _
    · rw [← toUInt32_succ]
      exact ih.map _

section Bound

variable {s : Superblock} {e : ByteOrder} {maxBlocks : Option UInt32} {address : BlockAddress}

theorem blockAddress_eq_some_iff (bound : ofSuperblock s e maxBlocks = .ok c) {k : UInt32} :
    c.blockAddress k = some address ↔ address.toNat = s.descBase.toNat + s.slotOf k := by
  obtain ⟨-, -, same⟩ := ofSuperblock_eq_ok bound
  obtain ⟨-, ring, -⟩ := ofSuperblock_eq_ok_iff.mp bound
  rw [same, Superblock.checkpointBlock_eq_some_iff ring]

theorem blockAddress_inside (bound : ofSuperblock s e maxBlocks = .ok c) {k : UInt32}
    (placed : c.blockAddress k = some address) : s.descBase.toNat ≤ address.toNat ∧
      address.toNat < s.descBase.toNat + s.descBlocks.toNat := by
  obtain ⟨-, ring, -⟩ := ofSuperblock_eq_ok_iff.mp bound
  have slot_lt := Superblock.slotOf_lt ring k
  rw [(blockAddress_eq_some_iff bound).mp placed]
  omega

/-- A chain is cut off before it comes round to a slot again. -/
theorem blockAddress_inj (bound : ofSuperblock s e maxBlocks = .ok c) {i j : UInt32}
    (hi : i < c.maxBlocks) (hj : j < c.maxBlocks) (at_i : c.blockAddress i = some address)
    (at_j : c.blockAddress j = some address) : i = j := by
  obtain ⟨-, max_le, -⟩ := ofSuperblock_eq_ok bound
  have place_i := (blockAddress_eq_some_iff bound).mp at_i
  have place_j := (blockAddress_eq_some_iff bound).mp at_j
  have hi := UInt32.lt_iff_toNat_lt.mp hi
  have hj := UInt32.lt_iff_toNat_lt.mp hj
  apply Superblock.slotOf_inj (s := s) (Nat.lt_of_lt_of_le hi max_le)
    (Nat.lt_of_lt_of_le hj max_le)
  omega

theorem length_slots_le (c : MapChain) (i n : Nat) : (c.slots i n).length ≤ n := by
  have le := List.length_filterMap_le (fun k => c.blockAddress k.toUInt32) (List.range' i n)
  rwa [List.length_range'] at le

theorem nodup_slots (bound : ofSuperblock s e maxBlocks = .ok c) {n : Nat}
    (within : n ≤ c.maxBlocks.toNat) : (c.slots 0 n).Nodup := by
  have word : ∀ {k}, k < n → k.toUInt32.toNat = k := by
    intro k lt
    have max_lt : c.maxBlocks.toNat < UInt32.size := c.maxBlocks.toNat_lt
    exact UInt32.toNat_ofNat_of_lt' (by omega)
  have below : ∀ {k}, k < n → k.toUInt32 < c.maxBlocks := by
    intro k lt
    rw [UInt32.lt_iff_toNat_lt, word lt]
    exact Nat.lt_of_lt_of_le lt within
  have numbers : (List.range' 0 n).Nodup := List.nodup_range'
  refine List.pairwise_filterMap.mpr (numbers.imp_of_mem ?_)
  rintro i j mem_i mem_j apart address at_i _ at_j rfl
  have hi : i < n := by simpa using mem_i
  have hj : j < n := by simpa using mem_j
  have same := blockAddress_inj bound (below hi) (below hj) at_i at_j
  exact apart (by rw [← word hi, same, word hj])

/-- A watched scan comes to what the plain one comes to. It asks for single blocks of the ring of
a superblock, for none of them twice. -/
def GoesRoundOnce (s : Superblock) (x : Session (σ × List Access) α) (plain : Session σ α) :
    Prop :=
  ∀ state log, ∃ reads : List BlockAddress, x.perform (state, log)
      = ((plain.perform state).1, ((plain.perform state).2, log ++ reads.map .block)) ∧
    reads.Nodup ∧ reads.length ≤ s.descBlocks.toNat ∧
    ∀ address ∈ reads, s.descBase.toNat ≤ address.toNat ∧
      address.toNat < s.descBase.toNat + s.descBlocks.toNat

theorem Asks.goesRoundOnce (bound : ofSuperblock s e maxBlocks = .ok c)
    {x : Session (σ × List Access) α} {plain : Session σ α}
    (asks : c.Asks 0 c.maxBlocks.toNat x plain) : GoesRoundOnce s x plain := by
  intro state log
  obtain ⟨n, le, ran⟩ := asks state log
  obtain ⟨-, max_le, -⟩ := ofSuperblock_eq_ok bound
  have few : (c.slots 0 n).length ≤ s.descBlocks.toNat :=
    Nat.le_trans (length_slots_le c 0 n) (Nat.le_trans le max_le)
  refine ⟨c.slots 0 n, ran, nodup_slots bound le, few, fun address mem => ?_⟩
  obtain ⟨k, -, placed⟩ := List.mem_filterMap.mp mem
  exact blockAddress_inside bound placed

/-- The blocks of a chain lie where the superblock says that those of the checkpoint lie: in the
slots that follow its index around the ring, as far as these have an address. A chain has no two
blocks at one address, and what scans it reads no block twice, whatever it finds there. -/
theorem addresses_go_round (bound : ofSuperblock s e maxBlocks = .ok c) :
    (∀ i, c.blockAddress i = s.checkpointBlock i ∧
      c.blockAddress i = s.descBlock (s.slotOf i).toUInt32) ∧
    (∀ i address, c.blockAddress i = some address ↔
      address.toNat = s.descBase.toNat + (s.descIndex.toNat + i.toNat) % s.descBlocks.toNat) ∧
    (∀ i address, c.blockAddress i = some address → s.descBase.toNat ≤ address.toNat ∧
      address.toNat < s.descBase.toNat + s.descBlocks.toNat) ∧
    (∀ i j address, i < c.maxBlocks → j < c.maxBlocks → c.blockAddress i = some address →
      c.blockAddress j = some address → i = j) ∧
    ∀ (σ : Type) (source : BlockSource (Session σ)),
      GoesRoundOnce s (c.mappings source.watched) (c.mappings source) ∧
      ∀ oid, GoesRoundOnce s (c.resolve source.watched oid) (c.resolve source oid) := by
  obtain ⟨-, -, same⟩ := ofSuperblock_eq_ok bound
  obtain ⟨-, ring, -⟩ := ofSuperblock_eq_ok_iff.mp bound
  refine ⟨fun i => ⟨same i, ?_⟩, fun i address => blockAddress_eq_some_iff bound,
    fun i address => blockAddress_inside bound, fun i j address => blockAddress_inj bound,
    fun σ source => ⟨?_, fun oid => ?_⟩⟩
  · rw [same, Superblock.checkpointBlock_eq_descBlock ring]
  · exact Asks.goesRoundOnce bound asks_mappingsFrom
  · exact Asks.goesRoundOnce bound (asks_resolveFrom oid)

end Bound

/-- A ring of three blocks of which the last has no address any more, and a checkpoint that starts
at the greatest index. -/
def farRing : Superblock :=
  { ObjectDraft.blankSuperblock 4096 64 10 with
    descBlocksWord := 3
    descBase := 0xFFFFFFFFFFFFFFFE
    descIndex := 0xFFFFFFFF
    descLength := 0xFFFFFFFF }

def farChain : MapChain := ⟨.big, 0xFFFFFFFFFFFFFFFE, 3, 0xFFFFFFFF, 3⟩

/-- Its second block lies in the second slot, and not in the first as it would with a sum of 32
bits. -/
theorem addresses_go_round_far : ofSuperblock farRing .big none = .ok farChain ∧
    farChain.blockAddress 0 = some 0xFFFFFFFFFFFFFFFE ∧
    farChain.blockAddress 1 = some 0xFFFFFFFFFFFFFFFF ∧ farChain.blockAddress 2 = none ∧
    farRing.checkpointBlock 1 = some 0xFFFFFFFFFFFFFFFF ∧
    ∀ source : BlockSource (Session Unit),
      GoesRoundOnce farRing (farChain.mappings source.watched) (farChain.mappings source) := by
  have bound : ofSuperblock farRing .big none = .ok farChain := by decide
  obtain ⟨same, -, -, -, scans⟩ := addresses_go_round bound
  have second : farChain.blockAddress 1 = some 0xFFFFFFFFFFFFFFFF := by decide
  refine ⟨bound, by decide, second, by decide, ?_, fun source => (scans Unit source).1⟩
  rw [← (same 1).1, second]

end MapChain

end ObjectStore
