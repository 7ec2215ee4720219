import ObjectStore.Proofs.CheckedObjects
import ObjectStore.Proofs.NodeFormat
import ObjectStore.Tree.Locate

/-
Nodes on a machine. Parsing checks the declared areas against the end of the block; what the
accessors then add, subtract and cut out rests on these checks.
-/
namespace ObjectStore

open ObjectStore.Tree

namespace Reader

def extent : Reader Extent.codec := (word16.seq word16).map

def nodeHeader : Reader NodeHeader.codec :=
  (header.seq <| word16.seq <| word16.seq <| word32.seq <| extent.seq <| extent.seq <|
    extent.seq extent).map

def footer : Reader Footer.codec :=
  (word32.seq <| word32.seq <| word32.seq <| word32.seq <| word32.seq <| word32.seq <|
    word64.seq word64).map

def slot : (fixed : Bool) → Reader (Slot.codec fixed)
  | true => (word16.seq word16).map
  | false => (extent.seq extent).map

end Reader

namespace Checked

def footerOfRoot (e : ByteOrder) (block : Bytes) : Decoding Footer :=
  match Machine.checkedSub block.size Footer.size with
  | none => throw (.insufficientData Footer.size 0 block.size)
  | some start => do
    let tail ← Machine.slice block start block.size
    Reader.footer.read e tail 0

def footerOf (e : ByteOrder) (header : NodeHeader) (bytes : Bytes) :
    Decoding (Option Footer × Nat) := do
  if header.isRoot then
    let footer ← footerOfRoot e bytes
    let valueEnd ← Machine.sub bytes.size Footer.size
    if valueEnd < NodeHeader.size then
      throw (.insufficientData (NodeHeader.size + Footer.size) 0 bytes.size)
    return (some footer, valueEnd)
  else return (none, bytes.size)

def checkAreas (header : NodeHeader) (valueEnd : Nat) : Decoding Unit := do
  let table := header.tableSpace.len.toNat
  let tableStart ← Machine.add 64 NodeHeader.size header.tableSpace.off.toNat
  let keyStart ← Machine.add 64 tableStart table
  if valueEnd < keyStart then
    throw (.insufficientData table tableStart (valueEnd - tableStart))
  match Machine.checkedMul 64 header.keyCount.toNat (Slot.sizeOf header.isFixed) with
  | none => throw (.integerConversion "btn_nkeys")
  | some needed =>
    if table < needed then
      throw (.invalidField "btn_table_space" "too small for key count")
    let freeStart ← Machine.add 64 keyStart header.freeSpace.off.toNat
    let freeEnd ← Machine.add 64 freeStart header.freeSpace.len.toNat
    if valueEnd < freeEnd then
      throw (.insufficientData header.freeSpace.len.toNat freeStart (valueEnd - freeStart))

def node (e : ByteOrder) (bytes : Bytes) : Decoding Node := do
  let header ← Reader.nodeHeader.decode e bytes
  if h : header.isLeaf = true ↔ header.level = 0 then
    let (footer, valueEnd) ← footerOf e header bytes
    checkAreas header valueEnd
    return ⟨e, bytes, header, footer, h⟩
  else throw (.invalidField "btn_level" "leaf flag disagrees with level")

theorem footerOfRoot_runs (e : ByteOrder) (block : Bytes) :
    Runs (footerOfRoot e block) (Footer.ofRoot e block) := by
  unfold footerOfRoot Footer.ofRoot Bytes.require
  by_cases short : block.size < Footer.size
  · rw [Machine.checkedSub_none short, if_pos short]
    exact .refused _
  · rw [Machine.checkedSub_eq (by omega), if_neg short, ok_bind, Footer.parse, Bytes.drop]
    refine .carried (Machine.slice_eq (Nat.sub_le _ _) (Nat.le_refl _)) ?_
    exact Reader.footer.read_runs e _ 0 (by decide)

theorem footerOf_runs (e : ByteOrder) (header : NodeHeader) (bytes : Bytes) :
    Runs (footerOf e header bytes) do
      let footer ← Node.footerOf e header bytes
      return (footer, Node.valueEndIn header bytes.size) := by
  unfold footerOf Node.footerOf Node.valueEndIn
  by_cases root : header.isRoot = true
  · simp only [if_pos root, bind_assoc]
    refine (footerOfRoot_runs e bytes).bind fun footer read => ?_
    have room : Footer.size ≤ bytes.size := (Node.ofRoot_eq_ok.mp read).1
    refine .carried (Machine.sub_eq room) ?_
    unfold Bytes.require
    by_cases cramped : bytes.size < NodeHeader.size + Footer.size
    · rw [if_pos (by omega), if_pos cramped]
      exact .refused _
    · rw [if_neg (by omega), if_neg cramped]
      exact .done _
  · simp only [if_neg root]
    exact .done _

theorem checkAreas_runs (header : NodeHeader) (valueEnd : Nat) :
    Runs (checkAreas header valueEnd) (Node.checkAreas header valueEnd) := by
  have own : NodeHeader.size = 56 := rfl
  have slot_le : Slot.sizeOf header.isFixed ≤ 8 := by
    cases header.isFixed <;> decide
  have count := header.keyCount.toNat_lt
  have table_off := header.tableSpace.off.toNat_lt
  have table_len := header.tableSpace.len.toNat_lt
  have free_off := header.freeSpace.off.toNat_lt
  have free_len := header.freeSpace.len.toNat_lt
  have needed : header.keyCount.toNat * Slot.sizeOf header.isFixed ≤ 2 ^ 32 * 8 :=
    Nat.mul_le_mul (by omega) slot_le
  unfold checkAreas Node.checkAreas
  refine .carried (Machine.add_eq (by omega)) ?_
  refine .carried (Machine.add_eq (by omega)) ?_
  refine .checked fun _ => ?_
  rw [Machine.checkedMul_eq (by omega)]
  refine .checked fun _ => ?_
  refine .carried (Machine.add_eq (by omega)) ?_
  refine .carried (Machine.add_eq (by omega)) ?_
  exact .branch (fun _ => .refused _) fun _ => .done ()

theorem node_runs (e : ByteOrder) (bytes : Bytes) : Runs (node e bytes) (Node.parse e bytes) := by
  refine (Reader.nodeHeader.decode_runs (by decide) e bytes).bind fun header _ => ?_
  by_cases leaf : header.isLeaf = true ↔ header.level = 0
  · rw [dif_pos leaf, dif_pos leaf]
    -- The end of the values goes along with the footer that it depends on.
    have same : ∀ (x : Except DecodeError (Option Footer))
        (k : Option Footer → Except DecodeError Node),
        x >>= k = (x >>= fun f => pure (f, Node.valueEndIn header bytes.size))
          >>= fun p => k p.1 := by
      intro x k
      cases x <;> rfl
    rw [same]
    refine (footerOf_runs e header bytes).bind fun (footer, valueEnd) known => ?_
    obtain ⟨f, -, pair⟩ := bind_eq_ok.mp known
    cases pair
    exact (checkAreas_runs header _).bind fun _ _ => .done _
  · rw [dif_neg leaf, dif_neg leaf]
    exact .refused _

end Checked

namespace Tree.Node

structure Areas (n : Node) : Prop where
  table_holds : n.keyCount * Slot.sizeOf n.isFixed ≤ n.header.tableSpace.len.toNat
  keys_le : n.keyStart ≤ n.valueEnd
  free_le : n.freeEnd ≤ n.valueEnd

structure Decoded (n : Node) : Prop where
  parsed : Node.parse n.order n.bytes = .ok n
  held : n.bytes.size < 2 ^ 63

theorem areas_of_parse {e : ByteOrder} {b : Bytes} {n : Node} (parsed : Node.parse e b = .ok n) :
    n.Areas := by
  obtain ⟨fits, holds⟩ := parse_eq_ok.mp parsed
  have header_eq := holds.header_eq
  have bytes_eq := holds.bytes_eq
  constructor
  · rw [keyCount, isFixed, header_eq]
    exact fits.slots_room
  · rw [keyStart, valueEnd, header_eq, bytes_eq]
    exact fits.table_room
  · rw [freeEnd, valueEnd, header_eq, bytes_eq]
    exact fits.free_room

variable {n : Node}

theorem Decoded.areas (decoded : n.Decoded) : n.Areas := areas_of_parse decoded.parsed

theorem valueEnd_le (n : Node) : n.valueEnd ≤ n.bytes.size := by
  unfold valueEnd valueEndIn
  split <;> omega

theorem keyStart_lt (n : Node) : n.keyStart < 2 ^ 18 := by
  have own : NodeHeader.size = 56 := rfl
  have off := n.header.tableSpace.off.toNat_lt
  have len := n.header.tableSpace.len.toNat_lt
  unfold keyStart keyStartIn tableStartIn
  omega

theorem tableStart_le (n : Node) : n.tableStart ≤ n.keyStart := Nat.le_add_right _ _

theorem keyStart_le (n : Node) : n.keyStart ≤ n.freeStart := Nat.le_add_right _ _

theorem freeStart_le (n : Node) : n.freeStart ≤ n.freeEnd := Nat.le_add_right _ _

end Tree.Node

namespace Checked

def table (n : Node) : Machine Bytes := Machine.slice n.bytes n.tableStart n.keyStart

def keyArea (n : Node) : Machine Bytes := Machine.slice n.bytes n.keyStart n.freeStart

def valueArea (n : Node) : Machine Bytes := Machine.slice n.bytes n.freeEnd n.valueEnd

def slot (n : Node) (index : Nat) : Decoding Slot :=
  if index < n.keyCount then do
    let table ← table n
    let base ← Machine.mul 64 index (Slot.sizeOf n.isFixed)
    (Reader.slot n.isFixed).read n.order table base
  else throw (.invalidField "toc_index" "index beyond key count")

def key (n : Node) (sizes : Option EntrySizes) (index : Nat) : Decoding Bytes := do
  let entry ← slot n index
  let (off, len) ← ofExcept (entry.keyRange sizes)
  let start ← Machine.add 64 n.keyStart off
  let stop ← Machine.add 64 start len
  if n.bytes.size < stop then
    throw (.insufficientData len start (n.bytes.size - start))
  if n.valueEnd < stop then
    throw (.invalidField "k.off" "key extends past key area")
  Machine.slice n.bytes start stop

def value (n : Node) (sizes : Option EntrySizes) (index : Nat) : Decoding Bytes := do
  let entry ← slot n index
  let (off, len) ← ofExcept (entry.valueRange sizes n.isLeaf)
  if off = Slot.noValue then return ByteArray.empty
  match Machine.checkedSub n.valueEnd off.toNat with
  | none => throw (.invalidField "v.off" "value offset before node start")
  | some start =>
    let stop ← Machine.add 64 start len
    if n.bytes.size < stop then
      let actual ← Machine.sub n.bytes.size start
      throw (.insufficientData len start actual)
    if start < n.keyStart ∨ n.valueEnd < stop then
      throw (.invalidField "v.off" "value extends outside value area")
    Machine.slice n.bytes start stop

def child (n : Node) (sizes : Option EntrySizes) (index : Nat) : Decoding ObjectId := do
  if n.isLeaf then throw (.invalidField "btn_level" "leaf nodes have no children")
  let pointer ← value n sizes index
  if pointer.size ≠ pointerSize.toNat then
    throw (.invalidField "v.len" "child pointer is not 8 bytes")
  word n.order .eight pointer 0

variable {n : Node}

theorem table_eq (decoded : n.Decoded) : table n = .ok n.table :=
  Machine.slice_eq n.tableStart_le (Nat.le_trans decoded.areas.keys_le n.valueEnd_le)

theorem keyArea_eq (decoded : n.Decoded) : keyArea n = .ok n.keyArea :=
  Machine.slice_eq n.keyStart_le
    (Nat.le_trans n.freeStart_le (Nat.le_trans decoded.areas.free_le n.valueEnd_le))

theorem valueArea_eq (decoded : n.Decoded) : valueArea n = .ok n.valueArea :=
  Machine.slice_eq decoded.areas.free_le n.valueEnd_le

theorem slot_runs (decoded : n.Decoded) (index : Nat) : Runs (slot n index) (n.slot index) := by
  have count := n.header.keyCount.toNat_lt
  have size_le : Slot.sizeOf n.isFixed ≤ 8 := by
    cases n.isFixed <;> decide
  have codec_size : (Slot.codec n.isFixed).size ≤ 8 := by
    cases n.isFixed <;> decide
  refine .branch (fun inside => ?_) fun _ => .refused _
  have base : index * Slot.sizeOf n.isFixed ≤ 2 ^ 32 * 8 := by
    have : n.keyCount = n.header.keyCount.toNat := rfl
    exact Nat.mul_le_mul (by omega) size_le
  refine .carried (table_eq decoded) ?_
  refine .carried (Machine.mul_eq (by omega)) ?_
  exact (Reader.slot n.isFixed).read_runs _ _ _ (by omega)

theorem keyRange_lt {entry : Slot} {sizes : Option EntrySizes} {off len : Nat}
    (range : entry.keyRange sizes = .ok (off, len)) : off < 2 ^ 16 ∧ len < 2 ^ 32 := by
  rcases entry with ⟨key, _⟩ | ⟨key, _⟩
  · cases sizes with
    | none => cases range
    | some sizes =>
      cases range
      have off := key.toNat_lt
      have len := sizes.key.toNat_lt
      omega
  · cases range
    have off := key.off.toNat_lt
    have len := key.len.toNat_lt
    omega

theorem key_runs (decoded : n.Decoded) (sizes : Option EntrySizes) (index : Nat) :
    Runs (key n sizes index) (n.key sizes index) := by
  have start_lt := n.keyStart_lt
  refine (slot_runs decoded index).bind fun entry _ => ?_
  refine (Runs.ofExcept _).bind fun (off, len) range => ?_
  obtain ⟨off_lt, len_lt⟩ := keyRange_lt range
  refine .carried (Machine.add_eq (by omega)) ?_
  refine .carried (Machine.add_eq (by omega)) ?_
  refine .checked fun inside => ?_
  refine .checked fun _ => ?_
  exact .operation (Machine.slice_eq (Nat.le_add_right _ _) (by omega))

theorem valueRange_lt {entry : Slot} {sizes : Option EntrySizes} {leaf : Bool} {off : UInt16}
    {len : Nat} (range : entry.valueRange sizes leaf = .ok (off, len)) : len < 2 ^ 32 := by
  rcases entry with ⟨_, _⟩ | ⟨_, value⟩
  · cases sizes with
    | none => cases range
    | some sizes =>
      cases range
      exact (sizes.valueIn leaf).toNat_lt
  · cases range
    have len := value.len.toNat_lt
    omega

theorem value_runs (decoded : n.Decoded) (sizes : Option EntrySizes) (index : Nat) :
    Runs (value n sizes index) (n.value sizes index) := by
  have held := decoded.held
  have end_le := n.valueEnd_le
  refine (slot_runs decoded index).bind fun entry _ => ?_
  refine (Runs.ofExcept _).bind fun (off, len) range => ?_
  have len_lt := valueRange_lt range
  refine .branch (fun _ => .done _) fun _ => ?_
  by_cases outside : n.valueEnd < off.toNat
  · rw [Machine.checkedSub_none outside, if_pos outside]
    exact .refused _
  rw [Machine.checkedSub_eq (by omega), if_neg outside]
  refine .carried (Machine.add_eq (by omega)) ?_
  by_cases past : n.bytes.size < n.valueEnd - off.toNat + len
  · rw [if_pos past, if_pos past]
    exact .carried (Machine.sub_eq (by omega)) (.refused _)
  rw [if_neg past, if_neg past]
  refine .checked fun _ => ?_
  exact .operation (Machine.slice_eq (Nat.le_add_right _ _) (by omega))

theorem child_runs (decoded : n.Decoded) (sizes : Option EntrySizes) (index : Nat) :
    Runs (child n sizes index) (n.child sizes index) := by
  refine .checked fun _ => ?_
  refine (value_runs decoded sizes index).bind fun pointer _ => ?_
  refine .checked fun _ => ?_
  exact word_runs n.order .eight pointer 0

end Checked

end ObjectStore
