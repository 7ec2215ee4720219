import ObjectStore.Proofs.ImageReads

/-
The two scans of a chain of map blocks, over a source of which nothing is known. Both go through
the same blocks and are stopped by the same errors; they differ only in what they take along.
-/
namespace ObjectStore

def firstMapping (mappings : List EphemeralMapping) (oid : ObjectId) (otherwise : StoreError) :
    Except StoreError EphemeralMapping :=
  match mappings.find? (·.oid == oid) with
  | some mapping => .ok mapping
  | none => .error otherwise

/-- What a scan that collects mappings comes to, if it is stopped by an error or by none. -/
def collected (mappings : List EphemeralMapping) :
    Option StoreError → Except StoreError (List EphemeralMapping)
  | none => .ok mappings
  | some e => .error e

def listed (blocks : List MapBlock) : List EphemeralMapping := blocks.flatMap MapBlock.mappings

theorem toNat_min (a b : UInt32) : (min a b).toNat = min a.toNat b.toNat := by
  have min_eq : min a b = if a ≤ b then a else b := rfl
  rw [min_eq]
  split
  · rename_i le
    have le := UInt32.le_iff_toNat_le.mp le
    omega
  · rename_i gt
    have gt := UInt32.lt_iff_toNat_lt.mp (UInt32.not_le.mp gt)
    omega

theorem MapBlock.typeCode_of_parse {e : ByteOrder} {b : Bytes} {block : MapBlock}
    (parsed : MapBlock.parse e b = .ok block) :
    block.header.typeCode = TypeWord.checkpointMap := by
  obtain ⟨⟨header, flags, count⟩, -, parsed⟩ := bind_eq_ok.mp parsed
  obtain ⟨_, expected, parsed⟩ := bind_eq_ok.mp parsed
  obtain ⟨-, parsed⟩ := checked_eq_ok.mp parsed
  obtain ⟨mappings, -, same⟩ := bind_eq_ok.mp parsed
  cases same
  exact ObjectHeader.expectCode_eq_ok.mp expected

namespace MapChain

structure Intact (c : MapChain) (source : BlockSource (Except StoreError)) (i : Nat)
    (address : BlockAddress) (bytes : Bytes) (block : MapBlock) : Prop where
  placed : c.blockAddress i.toUInt32 = some address
  read : source.readBlock address = .ok bytes
  verified : Object.verifies c.order bytes = true
  parsed : MapBlock.parse c.order bytes = .ok block

/-- A scan from block `i` on that may read `left` blocks: those that it goes through, and what
stops it in front of a last one if anything does. -/
inductive Scan (c : MapChain) (source : BlockSource (Except StoreError)) :
    Nat → Nat → List MapBlock → Option StoreError → Prop where
  | exhausted {i : Nat} : Scan c source i 0 [] (some c.unterminated)
  | failed {i left : Nat} {e : StoreError} (unread : c.readBlock source i.toUInt32 = .error e) :
      Scan c source i (left + 1) [] (some e)
  | last {i left : Nat} {block : MapBlock} (read : c.readBlock source i.toUInt32 = .ok block)
      (is_last : block.isLast = true) : Scan c source i (left + 1) [block] none
  | next {i left : Nat} {block : MapBlock} {blocks : List MapBlock} {ending : Option StoreError}
      (read : c.readBlock source i.toUInt32 = .ok block) (not_last : block.isLast = false)
      (rest : Scan c source (i + 1) left blocks ending) :
      Scan c source i (left + 1) (block :: blocks) ending

variable {c : MapChain} {source : BlockSource (Except StoreError)}

theorem ofSuperblock_eq_ok_iff {s : Superblock} {e : ByteOrder} {maxBlocks : Option UInt32} :
    ofSuperblock s e maxBlocks = .ok c ↔ s.isDescContiguous = true ∧ s.descBlocks ≠ 0 ∧
      c = ⟨e, s.descBase, s.descBlocks, s.descIndex,
        min (maxBlocks.getD s.descLength) s.descBlocks⟩ := by
  unfold ofSuperblock
  cases s.isDescContiguous with
  | false => simp
  | true =>
    rw [if_neg (by decide)]
    split <;> simp_all [eq_comm]

theorem toUInt32_succ (i : Nat) : (i + 1).toUInt32 = i.toUInt32 + 1 := UInt32.ofNat_add i 1

theorem readBlock_eq_ok {i : Nat} {block : MapBlock} :
    c.readBlock source i.toUInt32 = .ok block ↔
      ∃ address bytes, c.Intact source i address bytes block := by
  unfold readBlock
  constructor
  · intro run
    split at run
    · cases run
    · rename_i address placed
      obtain ⟨bytes, read, run⟩ := bind_eq_ok.mp run
      obtain ⟨_, verify, run⟩ := bind_eq_ok.mp run
      exact ⟨address, bytes, placed, read, Object.verify_eq_ok.mp verify, decodedAt_eq_ok.mp run⟩
  · rintro ⟨address, bytes, intact⟩
    rw [intact.placed]
    exact bind_eq_ok.mpr ⟨bytes, intact.read, bind_eq_ok.mpr
      ⟨(), Object.verify_eq_ok.mpr intact.verified, decodedAt_eq_ok.mpr intact.parsed⟩⟩

/-- A block is not found only where the source itself says so. -/
theorem readBlock_not_found {i : Nat} {text : String}
    (unread : c.readBlock source i.toUInt32 = .error (.keyNotFound text)) :
    ∃ address, c.blockAddress i.toUInt32 = some address ∧
      source.readBlock address = .error (.keyNotFound text) := by
  unfold readBlock at unread
  split at unread
  · cases unread
  · rename_i address placed
    refine ⟨address, placed, ?_⟩
    cases read : source.readBlock address with
    | error e =>
      rw [read] at unread
      cases unread
      rfl
    | ok bytes =>
      rw [read, ok_bind] at unread
      unfold Object.verify at unread
      split at unread
      · cases parsed : MapBlock.parse c.order bytes with
        | ok block =>
          rw [parsed] at unread
          cases unread
        | error e =>
          rw [parsed] at unread
          cases e <;> cases unread
      · cases unread

theorem scan_total (c : MapChain) (source : BlockSource (Except StoreError)) :
    ∀ left i, ∃ blocks ending, Scan c source i left blocks ending := by
  intro left
  induction left with
  | zero => exact fun i => ⟨_, _, .exhausted⟩
  | succ left ih =>
    intro i
    cases read : c.readBlock source i.toUInt32 with
    | error e => exact ⟨_, _, .failed read⟩
    | ok block =>
      cases is_last : block.isLast with
      | true => exact ⟨_, _, .last read is_last⟩
      | false =>
        obtain ⟨blocks, ending, rest⟩ := ih (i + 1)
        exact ⟨_, _, .next read is_last rest⟩

section Scans

variable {i left : Nat} {blocks : List MapBlock} {ending : Option StoreError}

theorem Scan.mappingsFrom_eq (scan : Scan c source i left blocks ending) :
    c.mappingsFrom source i.toUInt32 left = collected (listed blocks) ending := by
  induction scan with
  | exhausted => rfl
  | failed unread =>
    rw [mappingsFrom, unread]
    rfl
  | last read is_last =>
    rw [mappingsFrom, read, ok_bind, if_pos is_last, listed, List.flatMap_singleton]
    rfl
  | @next i left block blocks ending read not_last rest ih =>
    rw [toUInt32_succ] at ih
    rw [mappingsFrom, read, ok_bind, not_last, if_neg Bool.false_ne_true, ih]
    cases ending <;> rfl

theorem find_listed (blocks : List MapBlock) (oid : ObjectId) :
    (listed blocks).find? (·.oid == oid) = blocks.findSome? (·.find oid) := List.find?_flatMap

theorem firstMapping_cons (block : MapBlock) (blocks : List MapBlock) (oid : ObjectId)
    (otherwise : StoreError) : firstMapping (listed (block :: blocks)) oid otherwise
      = (match block.find oid with
        | some mapping => .ok mapping
        | none => firstMapping (listed blocks) oid otherwise) := by
  rw [firstMapping, firstMapping, find_listed, find_listed, List.findSome?_cons]
  cases block.find oid <;> rfl

theorem Scan.resolveFrom_eq (scan : Scan c source i left blocks ending) (oid : ObjectId) :
    c.resolveFrom source oid i.toUInt32 left
      = firstMapping (listed blocks) oid (ending.getD (absent oid)) := by
  induction scan with
  | exhausted => rfl
  | failed unread =>
    rw [resolveFrom, unread]
    rfl
  | @last i left block read is_last =>
    rw [resolveFrom, read, ok_bind, firstMapping_cons]
    cases block.find oid with
    | some mapping => rfl
    | none =>
      dsimp only
      rw [if_pos is_last]
      rfl
  | @next i left block blocks ending read not_last rest ih =>
    rw [toUInt32_succ] at ih
    rw [resolveFrom, read, ok_bind, firstMapping_cons]
    cases block.find oid with
    | some mapping => rfl
    | none =>
      dsimp only
      rw [not_last, if_neg Bool.false_ne_true, ih]

theorem Scan.length_le (scan : Scan c source i left blocks ending) : blocks.length ≤ left := by
  induction scan with
  | exhausted => exact Nat.le_refl 0
  | failed unread => exact Nat.zero_le _
  | last read is_last => exact Nat.succ_le_succ (Nat.zero_le _)
  | next read not_last rest ih => exact Nat.succ_le_succ ih

theorem Scan.intact (scan : Scan c source i left blocks ending) :
    ∀ j (h : j < blocks.length),
      ∃ address bytes, c.Intact source (i + j) address bytes blocks[j] := by
  induction scan with
  | exhausted => exact fun j h => absurd h (Nat.not_lt_zero j)
  | failed unread => exact fun j h => absurd h (Nat.not_lt_zero j)
  | last read is_last =>
    intro j h
    obtain rfl : j = 0 := Nat.lt_one_iff.mp h
    exact readBlock_eq_ok.mp read
  | @next i left block blocks ending read not_last rest ih =>
    intro j h
    cases j with
    | zero => exact readBlock_eq_ok.mp read
    | succ j =>
      have below := ih j (Nat.lt_of_succ_lt_succ h)
      rw [Nat.add_right_comm, Nat.add_assoc] at below
      exact below

theorem Scan.ends_last (scan : Scan c source i left blocks none) :
    ∃ earlier last, blocks = earlier ++ [last] ∧ last.isLast = true ∧
      ∀ block ∈ earlier, block.isLast = false := by
  generalize done : (none : Option StoreError) = ending at scan
  induction scan with
  | exhausted => cases done
  | failed unread => cases done
  | last read is_last => exact ⟨[], _, rfl, is_last, by simp⟩
  | next read not_last rest ih =>
    obtain ⟨earlier, last, rfl, is_last, none_before⟩ := ih done
    exact ⟨_ :: earlier, last, rfl, is_last, List.forall_mem_cons.mpr ⟨not_last, none_before⟩⟩

theorem Scan.stopped {e : StoreError} (scan : Scan c source i left blocks (some e)) :
    (∀ block ∈ blocks, block.isLast = false) ∧
      (blocks.length = left ∧ e = c.unterminated ∨
        blocks.length < left ∧ c.readBlock source (i + blocks.length).toUInt32 = .error e) := by
  generalize stopped : some e = ending at scan
  induction scan with
  | exhausted =>
    cases stopped
    exact ⟨by simp, .inl ⟨rfl, rfl⟩⟩
  | failed unread =>
    cases stopped
    exact ⟨by simp, .inr ⟨Nat.succ_pos _, unread⟩⟩
  | last read is_last => cases stopped
  | @next i left block blocks ending read not_last rest ih =>
    obtain ⟨none_last, how⟩ := ih stopped
    refine ⟨List.forall_mem_cons.mpr ⟨not_last, none_last⟩, ?_⟩
    rw [List.length_cons, Nat.add_comm blocks.length, ← Nat.add_assoc, Nat.add_comm 1,
      Nat.add_right_cancel_iff, Nat.add_lt_add_iff_right]
    exact how

theorem readBlock_congr {other : BlockSource (Except StoreError)}
    (counted : other.blockCount = source.blockCount)
    (agree : ∀ address, c.blockAddress i.toUInt32 = some address →
      other.readBlock address = source.readBlock address) :
    c.readBlock other i.toUInt32 = c.readBlock source i.toUInt32 := by
  unfold readBlock
  cases placed : c.blockAddress i.toUInt32 with
  | none =>
    dsimp only
    rw [counted]
  | some address =>
    dsimp only
    rw [agree address placed]

/-- A scan reads nothing behind a last block. -/
theorem Scan.of_agree {other : BlockSource (Except StoreError)} {n : Nat} {final : MapBlock}
    (there : c.readBlock source n.toUInt32 = .ok final) (is_final : final.isLast = true)
    (agree : ∀ j ≤ n, c.readBlock other j.toUInt32 = c.readBlock source j.toUInt32)
    (scan : Scan c source i left blocks ending) (in_front : i ≤ n) :
    Scan c other i left blocks ending := by
  induction scan with
  | exhausted => exact .exhausted
  | failed unread => exact .failed ((agree _ in_front).trans unread)
  | last read is_last => exact .last ((agree _ in_front).trans read) is_last
  | @next i left block blocks ending read not_last rest ih =>
    refine .next ((agree _ in_front).trans read) not_last (ih (Nat.lt_of_le_of_ne in_front ?_))
    rintro rfl
    rw [read] at there
    cases there
    rw [not_last] at is_final
    cases is_final

/-- Intact blocks of which none is the last are all gone through. -/
theorem scan_of_intact :
    ∀ (blocks : List MapBlock) (i : Nat), (∀ j (h : j < blocks.length),
      ∃ address bytes, c.Intact source (i + j) address bytes blocks[j]) →
    (∀ block ∈ blocks, block.isLast = false) →
    Scan c source i blocks.length blocks (some c.unterminated) := by
  intro blocks
  induction blocks with
  | nil => exact fun _ _ _ => .exhausted
  | cons block blocks ih =>
    intro i intact none_last
    obtain ⟨not_last, none_behind⟩ := List.forall_mem_cons.mp none_last
    refine .next (readBlock_eq_ok.mpr (intact 0 (Nat.succ_pos _))) not_last
      (ih (i + 1) (fun j h => ?_) none_behind)
    have here := intact (j + 1) (Nat.succ_lt_succ h)
    rw [← Nat.add_assoc, Nat.add_right_comm] at here
    exact here

end Scans

theorem firstMapping_eq_error {mappings : List EphemeralMapping} {oid : ObjectId}
    {otherwise e : StoreError} :
    firstMapping mappings oid otherwise = .error e ↔
      e = otherwise ∧ ∀ mapping ∈ mappings, mapping.oid ≠ oid := by
  unfold firstMapping
  split
  · rename_i mapping found
    refine iff_of_false (fun same => nomatch same) (fun ⟨_, missing⟩ => ?_)
    exact missing mapping (List.mem_of_find?_eq_some found)
      (beq_iff_eq.mp (List.find?_some found :))
  · rename_i missing
    rw [List.find?_eq_none] at missing
    simp only [beq_iff_eq] at missing
    constructor
    · intro same
      cases same
      exact ⟨rfl, missing⟩
    · rintro ⟨rfl, -⟩
      rfl

/-- The blocks in the first slots of a chain, as far as a scan may read. -/
structure Leads (c : MapChain) (source : BlockSource (Except StoreError))
    (blocks : List MapBlock) : Prop where
  within : blocks.length ≤ c.maxBlocks.toNat
  intact : ∀ j (h : j < blocks.length), ∃ address bytes, c.Intact source j address bytes blocks[j]

/-- The blocks up to the first that is flagged as the last. -/
structure Complete (c : MapChain) (source : BlockSource (Except StoreError))
    (blocks : List MapBlock) : Prop extends c.Leads source blocks where
  ends_last : ∃ earlier last, blocks = earlier ++ [last] ∧ last.isLast = true ∧
    ∀ block ∈ earlier, block.isLast = false

structure Stopped (c : MapChain) (source : BlockSource (Except StoreError))
    (blocks : List MapBlock) (e : StoreError) : Prop extends c.Leads source blocks where
  none_last : ∀ block ∈ blocks, block.isLast = false
  stopped : blocks.length = c.maxBlocks.toNat ∧ e = c.unterminated ∨
    blocks.length < c.maxBlocks.toNat ∧ c.readBlock source blocks.length.toUInt32 = .error e

abbrev Scanned (c : MapChain) (source : BlockSource (Except StoreError)) (blocks : List MapBlock)
    (ending : Option StoreError) : Prop :=
  Scan c source 0 c.maxBlocks.toNat blocks ending

section Scanned

variable {blocks : List MapBlock} {ending : Option StoreError}

theorem Scanned.mappings_eq (scanned : c.Scanned source blocks ending) :
    c.mappings source = collected (listed blocks) ending :=
  Scan.mappingsFrom_eq scanned

theorem Scanned.resolve_eq (scanned : c.Scanned source blocks ending) (oid : ObjectId) :
    c.resolve source oid = firstMapping (listed blocks) oid (ending.getD (absent oid)) :=
  Scan.resolveFrom_eq scanned oid

theorem Scanned.leads (scanned : c.Scanned source blocks ending) : c.Leads source blocks := by
  refine ⟨Scan.length_le scanned, fun j h => ?_⟩
  have intact := Scan.intact scanned j h
  rwa [Nat.zero_add] at intact

theorem Scanned.complete (scanned : c.Scanned source blocks none) : c.Complete source blocks :=
  ⟨scanned.leads, Scan.ends_last scanned⟩

theorem Scanned.stopped {e : StoreError} (scanned : c.Scanned source blocks (some e)) :
    c.Stopped source blocks e := by
  have how := Scan.stopped scanned
  rw [Nat.zero_add] at how
  exact ⟨scanned.leads, how.1, how.2⟩

/-- An object is not found only behind a last block, or where the source itself says so. -/
theorem Scanned.not_found (scanned : c.Scanned source blocks ending) {oid : ObjectId}
    {text : String} (missed : c.resolve source oid = .error (.keyNotFound text)) :
    (c.Complete source blocks ∧ ∀ mapping ∈ listed blocks, mapping.oid ≠ oid) ∨
      ∃ i < c.maxBlocks.toNat, ∃ address, c.blockAddress i.toUInt32 = some address ∧
        source.readBlock address = .error (.keyNotFound text) := by
  rw [scanned.resolve_eq, firstMapping_eq_error] at missed
  obtain ⟨same, missing⟩ := missed
  cases ending with
  | none => exact .inl ⟨scanned.complete, missing⟩
  | some e =>
    cases same
    rcases scanned.stopped.stopped with ⟨-, same⟩ | ⟨within, unread⟩
    · cases same
    · exact .inr ⟨_, within, readBlock_not_found unread⟩

end Scanned

/-- Both scans go by the same blocks. An object is not found only behind a last block, or where
the source itself says so, and nothing behind that block matters. -/
theorem resolve_agrees_with_mappings (c : MapChain) (source : BlockSource (Except StoreError)) :
    (∀ list, c.mappings source = .ok list →
      (∃ blocks, c.Complete source blocks ∧ list = listed blocks) ∧
      ∀ oid, c.resolve source oid = firstMapping list oid (absent oid) ∧
        ((∃ text, c.resolve source oid = .error (.keyNotFound text)) ↔
          ∀ mapping ∈ list, mapping.oid ≠ oid)) ∧
    (∀ e, c.mappings source = .error e → ∃ blocks, c.Stopped source blocks e ∧
      ∀ oid, c.resolve source oid = firstMapping (listed blocks) oid e) ∧
    (∀ oid text, c.resolve source oid = .error (.keyNotFound text) →
      (∃ blocks, c.Complete source blocks ∧ ∀ mapping ∈ listed blocks, mapping.oid ≠ oid) ∨
      ∃ i < c.maxBlocks.toNat, ∃ address, c.blockAddress i.toUInt32 = some address ∧
        source.readBlock address = .error (.keyNotFound text)) ∧
    (∀ blocks, c.Leads source blocks → (∀ block ∈ blocks, block.isLast = false) →
      blocks.length = c.maxBlocks.toNat →
      (∃ block detail, c.unterminated = .corrupt block detail) ∧
      c.mappings source = .error c.unterminated ∧
      ∀ oid, c.resolve source oid = firstMapping (listed blocks) oid c.unterminated) ∧
    ∀ n address bytes final, c.Intact source n address bytes final → final.isLast = true →
      ∀ other : BlockSource (Except StoreError), other.blockCount = source.blockCount →
        (∀ j ≤ n, ∀ address, c.blockAddress j.toUInt32 = some address →
          other.readBlock address = source.readBlock address) →
        c.mappings other = c.mappings source ∧
          ∀ oid, c.resolve other oid = c.resolve source oid := by
  obtain ⟨blocks, ending, (scanned : c.Scanned source blocks ending)⟩ :=
    scan_total c source c.maxBlocks.toNat 0
  refine ⟨?listed, ?failed, ?missing, ?unterminated, ?behind⟩
  case listed =>
    intro list run
    rw [scanned.mappings_eq] at run
    cases ending with
    | some e => cases run
    | none =>
      cases run
      refine ⟨⟨blocks, scanned.complete, rfl⟩, fun oid => ?_⟩
      rw [scanned.resolve_eq]
      refine ⟨rfl, ?_⟩
      simp only [firstMapping_eq_error]
      exact ⟨fun ⟨_, _, missing⟩ => missing, fun missing => ⟨_, rfl, missing⟩⟩
  case failed =>
    intro e run
    rw [scanned.mappings_eq] at run
    cases ending with
    | none => cases run
    | some e' =>
      cases run
      exact ⟨blocks, scanned.stopped, scanned.resolve_eq⟩
  case missing =>
    intro oid text missed
    exact (scanned.not_found missed).imp_left fun ⟨complete, missing⟩ => ⟨blocks, complete, missing⟩
  case unterminated =>
    intro all leads none_last whole
    have scanned' : c.Scanned source all (some c.unterminated) := by
      have scan := scan_of_intact all 0 (fun j h => by
        rw [Nat.zero_add]
        exact leads.intact j h) none_last
      rwa [whole] at scan
    exact ⟨⟨_, _, rfl⟩, scanned'.mappings_eq, scanned'.resolve_eq⟩
  case behind =>
    intro n address bytes final intact is_final other counted agree
    have scanned' : c.Scanned other blocks ending :=
      Scan.of_agree (readBlock_eq_ok.mpr ⟨address, bytes, intact⟩) is_final
        (fun j le => readBlock_congr counted (agree j le)) scanned (Nat.zero_le n)
    exact ⟨scanned'.mappings_eq.trans scanned.mappings_eq.symm,
      fun oid => (scanned'.resolve_eq oid).trans (scanned.resolve_eq oid).symm⟩

section Remembered

open Session

variable {I : Memory → Prop} (keeps : ∀ memory access, I memory → I (memory.note access))

include keeps

theorem yields_readBlock (i : UInt32) :
    Yields I (c.readBlock source.remembered i) (c.readBlock source i) := by
  unfold readBlock
  split
  · exact yields_throw _
  · rename_i address placed
    refine Yields.bind_result (fun memory holds => ?_) fun block => ?_
    · rw [BlockSource.perform_remembered_block]
      exact ⟨keeps _ _ holds, rfl⟩
    · refine Yields.bind_result ?_ fun _ => ?_
      · unfold Object.verify
        split
        · exact yields_pure ()
        · exact yields_throw _
      · cases MapBlock.parse c.order block with
        | error e => exact yields_throw _
        | ok parsed => exact yields_pure parsed

theorem yields_resolveFrom (oid : ObjectId) : ∀ (left : Nat) (i : UInt32),
    Yields I (c.resolveFrom source.remembered oid i left) (c.resolveFrom source oid i left) := by
  intro left
  induction left with
  | zero => exact fun _ => yields_throw _
  | succ left ih =>
    intro i
    refine Yields.bind_result (yields_readBlock keeps i) fun block => ?_
    split
    · exact yields_pure _
    · split
      · exact yields_throw _
      · exact ih _

/-- A scan comes to the same where a reader remembers what it has asked for. -/
theorem yields_resolve (oid : ObjectId) :
    Yields I (c.resolve source.remembered oid) (c.resolve source oid) :=
  yields_resolveFrom keeps oid _ _

theorem yields_mappingsFrom : ∀ (left : Nat) (i : UInt32),
    Yields I (c.mappingsFrom source.remembered i left) (c.mappingsFrom source i left) := by
  intro left
  induction left with
  | zero => exact fun _ => yields_throw _
  | succ left ih =>
    intro i
    refine Yields.bind_result (yields_readBlock keeps i) fun block => ?_
    split
    · exact yields_pure _
    · exact Yields.bind_result (ih _) fun more => yields_pure _

theorem yields_mappings : Yields I (c.mappings source.remembered) (c.mappings source) :=
  yields_mappingsFrom keeps _ _

end Remembered

end MapChain

end ObjectStore
