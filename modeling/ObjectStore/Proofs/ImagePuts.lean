import ObjectStore.Proofs.ImageSource

/-
Images filled by puts of any lengths, one over the other. A put is cut into pieces of one block
each and replaces whole blocks, so that nothing of an older piece shows behind a short one: every
block holds the piece that came to it last.
-/
namespace ObjectStore

namespace Checked

/-- Puts the pieces from number `i` on, the address of each block counted from that of the first. -/
def putPieces (address : BlockAddress) (bytes : Bytes) (i : Nat) :
    Nat → Image → Machine (Except BuildError Unit × Image)
  | 0, image => return (.ok (), image)
  | left + 1, image => do
    let block ← Machine.add 64 address.toNat i
    if image.blockCount.toNat ≤ block then
      return (.error (.beyondImage block image.blockCount.toNat), image)
    else
      putPieces address bytes (i + 1) left
        { image with
          placed := (block.toUInt64, Image.piece image.blockSize.toNat bytes i) :: image.placed }

def put (address : BlockAddress) (bytes : Bytes) (image : Image) :
    Machine (Except BuildError Unit × Image) := do
  let pieces ← Machine.divCeil 64 bytes.size image.blockSize.toNat
  putPieces address bytes 0 pieces image

/-- The block behind one of the image has an address still, whether the image has it or not. -/
theorem putPieces_eq (address : BlockAddress) (bytes : Bytes) {i : Nat} (left : Nat)
    (image : Image) (reached : address.toNat + i < 2 ^ 64) :
    putPieces address bytes i left image = .ok (Image.putPieces address bytes i left image) := by
  induction left generalizing i image with
  | zero => rfl
  | succ left ih =>
    rw [putPieces, Image.putPieces, Machine.add_eq reached, ok_bind]
    split
    · rfl
    · rename_i inside
      have count_lt := image.blockCount.toNat_lt
      exact ih _ (by omega)

theorem put_eq (address : BlockAddress) {bytes : Bytes} {image : Image}
    (some_bytes : 0 < image.blockSize.toNat) (addressable : bytes.size < Bytes.addressLimit) :
    put address bytes image = .ok (image.put address bytes) := by
  rw [put, Machine.divCeil_eq some_bytes addressable, ok_bind]
  exact putPieces_eq address bytes _ image address.toNat_lt

end Checked

namespace Image

open ContainerDraft (Pending putAll)
open NodeDraft (concat)

/-- Bytes that are put on an image from a block on have some for the block of this number. -/
def Covers (size : Nat) (put : Pending) (block : Nat) : Prop :=
  put.1.toNat ≤ block ∧ (block - put.1.toNat) * size < put.2.size

instance (size : Nat) (put : Pending) (block : Nat) : Decidable (Covers size put block) :=
  inferInstanceAs (Decidable (_ ∧ _))

def latestOn (size : Nat) (puts : List Pending) (block : Nat) : Option Pending :=
  puts.reverse.find? fun put => Covers size put block

def byteAfter (size : Nat) (puts : List Pending) (block j : Nat) : UInt8 :=
  match latestOn size puts block with
  | some put => put.2.getPadded ((block - put.1.toNat) * size + j)
  | none => 0

variable {image image' : Image} {address : BlockAddress} {bytes : Bytes} {size : Nat}

section Pieces

variable {i j left : Nat}

theorem lt_pieces_iff (some_bytes : 0 < size) {n : Nat} :
    i < (n + size - 1) / size ↔ i * size < n := by
  rw [← Nat.not_le, ← Nat.le_mul_iff_le_left some_bytes, Nat.not_le]

theorem size_piece (size : Nat) (bytes : Bytes) (i : Nat) : (piece size bytes i).size = size := by
  have short : (bytes.extract (i * size) ((i + 1) * size)).size ≤ size := by
    rw [ByteArray.size_extract, Nat.add_mul, Nat.one_mul]
    omega
  rw [piece, ByteArray.size_append, Bytes.size_zeros]
  omega

/-- A piece that ends with the bytes goes on with zeros. -/
theorem getPadded_piece (bytes : Bytes) (i : Nat) (lt : j < size) :
    (piece size bytes i).getPadded j = bytes.getPadded (i * size + j) := by
  have stop : (i + 1) * size = i * size + size := by rw [Nat.add_mul, Nat.one_mul]
  have inside : i * size + j < (i + 1) * size := by omega
  rw [← Bytes.getPadded_extract inside, piece, Bytes.getPadded_append]
  split
  · rfl
  · rename_i behind
    rw [Bytes.getPadded_zeros, Bytes.getPadded_past (Nat.le_of_not_lt behind)]

def placing (image : Image) (address : BlockAddress) (block : Bytes) : Image :=
  { image with placed := (address, block) :: image.placed }

theorem block?_placing (image : Image) (address : BlockAddress) (block : Bytes)
    (n : BlockAddress) : (image.placing address block).block? n
      = if n = address then some block else image.block? n := by
  rw [block?, placing, List.lookup_cons]
  by_cases same : n = address
  · rw [if_pos same, beq_iff_eq.mpr same]
  · rw [if_neg same, beq_eq_false_iff_ne.mpr same]
    rfl

theorem Filled.placing (filled : image.Filled) {block : Bytes}
    (size_eq : block.size = image.blockSize.toNat) (address : BlockAddress) :
    (image.placing address block).Filled := by
  intro at_block held mem
  rcases List.mem_cons.mp mem with first | later
  · cases first
    exact size_eq
  · exact filled at_block held later

theorem putPieces_succ : putPieces address bytes i (left + 1) image =
    if image.blockCount.toNat ≤ address.toNat + i then
      (.error (.beyondImage (address.toNat + i) image.blockCount.toNat), image)
    else putPieces address bytes (i + 1) left
      (image.placing (address.toNat + i).toUInt64 (piece image.blockSize.toNat bytes i)) := rfl

theorem putPieces_ok_iff : (putPieces address bytes i left image).1 = .ok () ↔
    ∀ k < left, address.toNat + i + k < image.blockCount.toNat := by
  induction left generalizing i image with
  | zero => exact iff_of_true rfl fun k lt => absurd lt (Nat.not_lt_zero k)
  | succ left ih =>
    rw [putPieces_succ]
    by_cases beyond : image.blockCount.toNat ≤ address.toNat + i
    · rw [if_pos beyond]
      refine iff_of_false (fun same => nomatch same) fun inside => ?_
      exact absurd (inside 0 (Nat.succ_pos left)) (Nat.not_lt.mpr beyond)
    · rw [if_neg beyond, ih]
      change (∀ k < left, address.toNat + (i + 1) + k < image.blockCount.toNat) ↔ _
      constructor
      · intro inside k lt
        cases k with
        | zero => exact Nat.lt_of_not_le beyond
        | succ k =>
          have next := inside k (Nat.lt_of_succ_lt_succ lt)
          omega
      · intro inside k lt
        have next := inside (k + 1) (Nat.succ_lt_succ lt)
        omega

structure Spilled (image : Image) (address : BlockAddress) (bytes : Bytes) (i left : Nat)
    (image' : Image) : Prop where
  size_eq : image'.blockSize = image.blockSize
  count_eq : image'.blockCount = image.blockCount
  filled : image.Filled → image'.Filled
  block_eq : ∀ n, image'.block? n =
    if address.toNat + i ≤ n.toNat ∧ n.toNat < address.toNat + i + left then
      some (piece image.blockSize.toNat bytes (n.toNat - address.toNat))
    else image.block? n

theorem spilled_of_putPieces (run : putPieces address bytes i left image = (.ok (), image')) :
    Spilled image address bytes i left image' := by
  induction left generalizing i image with
  | zero =>
    cases run
    exact ⟨rfl, rfl, id, fun n => (if_neg (by omega)).symm⟩
  | succ left ih =>
    rw [putPieces_succ] at run
    split at run
    · cases run
    · rename_i inside
      have rest := ih run
      refine ⟨rest.size_eq, rest.count_eq, fun filled => ?_, fun n => ?_⟩
      · exact rest.filled (filled.placing (size_piece _ _ _) _)
      · have count_lt := image.blockCount.toNat_lt
        have word : (address.toNat + i).toUInt64.toNat = address.toNat + i :=
          UInt64.toNat_ofNat_of_lt' (by change _ < 2 ^ 64; omega)
        rw [rest.block_eq, block?_placing]
        -- The rest goes to later blocks, so this one stays as it was put.
        by_cases here : n = (address.toNat + i).toUInt64
        · have number : n.toNat = address.toNat + i := by rw [here, word]
          rw [if_pos here, if_neg (by omega), if_pos (by omega), number, Nat.add_sub_cancel_left]
        · have other : n.toNat ≠ address.toNat + i := by
            rw [← word]
            exact fun same => here (UInt64.toNat_inj.mp same)
          have earlier_iff : address.toNat + (i + 1) ≤ n.toNat ∧
              n.toNat < address.toNat + (i + 1) + left ↔
                address.toNat + i ≤ n.toNat ∧ n.toNat < address.toNat + i + (left + 1) := by omega
          rw [if_neg here]
          simp only [earlier_iff]
          rfl

end Pieces

theorem covers_iff (some_bytes : 0 < size) {block : Nat} :
    Covers size (address, bytes) block ↔ address.toNat ≤ block ∧
      block < address.toNat + (bytes.size + size - 1) / size := by
  have piece_iff := lt_pieces_iff (i := block - address.toNat) (n := bytes.size) some_bytes
  unfold Covers
  dsimp only
  omega

/-- A put succeeds if the image has every block that there are bytes for, and only then. -/
theorem put_ok_iff (some_bytes : 0 < image.blockSize.toNat) :
    (image.put address bytes).1 = .ok () ↔ ∀ block,
      Covers image.blockSize.toNat (address, bytes) block → block < image.blockCount.toNat := by
  rw [put, putPieces_ok_iff]
  constructor
  · intro inside block covered
    obtain ⟨le, lt⟩ := (covers_iff some_bytes).mp covered
    have within := inside (block - address.toNat) (by omega)
    omega
  · intro inside k lt
    exact inside _ ((covers_iff some_bytes).mpr (by omega))

theorem latestOn_cons (size : Nat) (put : Pending) (puts : List Pending) (block : Nat) :
    latestOn size (put :: puts) block
      = (latestOn size puts block).or (if Covers size put block then some put else none) := by
  rw [latestOn, List.reverse_cons, List.find?_append, List.find?_singleton]
  simp only [latestOn, decide_eq_true_eq]

def held (size : Nat) (puts : List Pending) (block : Nat) : Option Bytes :=
  (latestOn size puts block).map fun put => piece size put.2 (block - put.1.toNat)

theorem held_single (size : Nat) (put : Pending) (block : Nat) : held size [put] block =
    if Covers size put block then some (piece size put.2 (block - put.1.toNat)) else none := by
  rw [held, latestOn_cons]
  split <;> rfl

theorem held_cons (size : Nat) (put : Pending) (puts : List Pending) (block : Nat) :
    held size (put :: puts) block = (held size puts block).or (held size [put] block) := by
  rw [held_single, held, latestOn_cons, Option.map_or, held]
  split <;> rfl

theorem getPadded_held (puts : List Pending) (block : Nat) {j : Nat} (lt : j < size) :
    ((held size puts block).getD (Bytes.zeros size)).getPadded j = byteAfter size puts block j := by
  rw [held, byteAfter]
  cases latestOn size puts block with
  | some put => exact getPadded_piece put.2 _ lt
  | none => exact Bytes.getPadded_zeros size j

structure After (image : Image) (puts : List Pending) (image' : Image) : Prop where
  size_eq : image'.blockSize = image.blockSize
  count_eq : image'.blockCount = image.blockCount
  filled : image.Filled → image'.Filled
  block_eq : ∀ n, image'.block? n
    = (held image.blockSize.toNat puts n.toNat).or (image.block? n)

theorem after_put (some_bytes : 0 < image.blockSize.toNat)
    (run : image.put address bytes = (.ok (), image')) : After image [(address, bytes)] image' := by
  have spilled := spilled_of_putPieces run
  refine ⟨spilled.size_eq, spilled.count_eq, spilled.filled, fun n => ?_⟩
  rw [spilled.block_eq, held_single, Nat.add_zero]
  simp only [← covers_iff some_bytes]
  by_cases covered : Covers image.blockSize.toNat (address, bytes) n.toNat
  · rw [if_pos covered, if_pos covered]
    rfl
  · rw [if_neg covered, if_neg covered]
    rfl

theorem After.cons {image₁ : Image} {put : Pending} {puts : List Pending}
    (first : After image [put] image₁) (rest : After image₁ puts image') :
    After image (put :: puts) image' := by
  refine ⟨rest.size_eq.trans first.size_eq, rest.count_eq.trans first.count_eq,
    fun filled => rest.filled (first.filled filled), fun n => ?_⟩
  rw [rest.block_eq, first.block_eq, first.size_eq, held_cons _ put puts, Option.or_assoc]

theorem putAll_cons_eq_ok {put : Pending} {puts : List Pending} :
    putAll image (put :: puts) = .ok image' ↔ ∃ image₁,
      image.put put.1 put.2 = (.ok (), image₁) ∧ putAll image₁ puts = .ok image' := by
  obtain ⟨address, bytes⟩ := put
  rw [putAll]
  rcases image.put address bytes with ⟨e | _, image₁⟩
  · simp
  · simp

theorem after_putAll {puts : List Pending} (some_bytes : 0 < image.blockSize.toNat)
    (run : putAll image puts = .ok image') : After image puts image' := by
  induction puts generalizing image with
  | nil =>
    cases run
    exact ⟨rfl, rfl, id, fun n => rfl⟩
  | cons put puts ih =>
    obtain ⟨image₁, first, run⟩ := putAll_cons_eq_ok.mp run
    have after := after_put some_bytes first
    exact after.cons (ih (by rw [after.size_eq]; exact some_bytes) run)

theorem putAll_succeeds_iff {puts : List Pending} (some_bytes : 0 < image.blockSize.toNat) :
    (∃ image', putAll image puts = .ok image') ↔ ∀ put ∈ puts, ∀ block,
      Covers image.blockSize.toNat put block → block < image.blockCount.toNat := by
  induction puts generalizing image with
  | nil => exact iff_of_true ⟨image, rfl⟩ (by simp)
  | cons put puts ih =>
    have later_iff : ∀ {image₁}, image.put put.1 put.2 = (.ok (), image₁) →
        ((∃ image', putAll image₁ puts = .ok image') ↔ ∀ put ∈ puts, ∀ block,
          Covers image.blockSize.toNat put block → block < image.blockCount.toNat) := by
      intro image₁ first
      have after := after_put some_bytes first
      rw [ih (by rw [after.size_eq]; exact some_bytes), after.size_eq, after.count_eq]
    rw [List.forall_mem_cons, ← put_ok_iff some_bytes]
    constructor
    · rintro ⟨image', run⟩
      obtain ⟨image₁, first, run⟩ := putAll_cons_eq_ok.mp run
      exact ⟨congrArg Prod.fst first, (later_iff first).mp ⟨image', run⟩⟩
    · rintro ⟨succeeds, inside⟩
      have first : image.put put.1 put.2 = (.ok (), (image.put put.1 put.2).2) :=
        Prod.ext succeeds rfl
      obtain ⟨image', run⟩ := (later_iff first).mpr inside
      exact ⟨image', putAll_cons_eq_ok.mpr ⟨_, first, run⟩⟩

section Finished

variable {blockSize : UInt32} {blockCount : UInt64} {puts : List Pending}

/-- What an image of this many blocks becomes, as bytes and as a source, and each block of it. -/
structure Holds (image : Image) (blockSize : UInt32) (blockCount : UInt64) (puts : List Pending)
    (bytes : Bytes) (source : BlockSource (Except StoreError)) : Prop where
  bytes_eq : image.toBytes = .ok bytes
  size_eq : bytes.size = blockCount.toNat * blockSize.toNat
  byte_eq : ∀ block < blockCount.toNat, ∀ j < blockSize.toNat,
    bytes.getPadded (block * blockSize.toNat + j) = byteAfter blockSize.toNat puts block j
  source_eq : image.toSource = .ok source
  blockSize_eq : source.blockSize = blockSize
  blockCount_eq : source.blockCount = blockCount
  read_eq : ∀ address, source.readBlock address = if address < blockCount then
      .ok (bytes.extract (address.toNat * blockSize.toNat) ((address.toNat + 1) * blockSize.toNat))
    else .error (.outOfRange address blockCount)

theorem holds_of_after (legal : blockSize ∈ BlockSize.legal)
    (fits : blockCount.toNat * blockSize.toNat < Bytes.bufferLimit)
    (after : After (blank blockSize blockCount) puts image) :
    ∃ bytes source, image.Holds blockSize blockCount puts bytes source := by
  obtain ⟨size_eq, count_eq, filled, block_eq⟩ := after
  change image.blockSize = blockSize at size_eq
  change image.blockCount = blockCount at count_eq
  subst size_eq count_eq
  have holds : ∀ n, image.block? n = held image.blockSize.toNat puts n.toNat :=
    fun n => (block_eq n).trans Option.or_none
  have all_filled : image.Filled := filled fun address bytes mem => absurd mem List.not_mem_nil
  obtain ⟨source, shown⟩ := toSource_succeeds all_filled legal fits
  obtain ⟨-, -, opened⟩ := toSource_eq_ok shown
  have whole := image.size_concat_blocks all_filled
  have counted := blockCount_of_toSource all_filled shown
  have answers :=
    BlockSource.answers_of_ofBytes opened (whole ▸ Bytes.addressable_of_buffer fits)
  refine ⟨concat image.blocks, source, toBytes_eq legal fits, whole, ?_, shown,
    (BlockSource.ofBytes_eq_ok opened).2.1, counted, fun address => ?_⟩
  · intro block inside j lt
    have listed : block < image.blocks.length := by
      rw [length_blocks]
      exact inside
    have inner : block * image.blockSize.toNat + j < (block + 1) * image.blockSize.toNat := by
      rw [Nat.add_mul, Nat.one_mul]
      omega
    have number : block.toUInt64.toNat = block :=
      UInt64.toNat_ofNat_of_lt' (Nat.lt_trans inside image.blockCount.toNat_lt)
    rw [← Bytes.getPadded_extract inner,
      extract_concat (fun block mem => image.size_blocks all_filled mem) listed, getElem_blocks,
      holds, number, getPadded_held puts block lt]
  · rw [answers.readBlock, counted]
    simp only [UInt64.lt_iff_toNat_lt]
    rfl

/-- Puts that have all succeeded, one over the other in any way, leave on each block the piece
that was put there last, with zeros behind it, and zeros where nothing was put. If a buffer can
hold them, the bytes of the image are these blocks, and a source over it reads them and nothing
else. A put succeeds if the image has all blocks that there are bytes for, and then no address on
the way leaves its word. -/
theorem latest_pieces (legal : blockSize ∈ BlockSize.legal) :
    (blockCount.toNat * blockSize.toNat < Bytes.bufferLimit → ∀ puts image,
      putAll (blank blockSize blockCount) puts = .ok image →
      ∃ bytes source, image.Holds blockSize blockCount puts bytes source) ∧
    (∀ puts, (∃ image, putAll (blank blockSize blockCount) puts = .ok image) ↔
      ∀ put ∈ puts, ∀ block, Covers blockSize.toNat put block → block < blockCount.toNat) ∧
    ∀ image : Image, image.blockSize = blockSize → ∀ address bytes,
      ((image.put address bytes).1 = .ok () ↔ ∀ block,
        Covers blockSize.toNat (address, bytes) block → block < image.blockCount.toNat) ∧
      (bytes.size < Bytes.addressLimit →
        Checked.put address bytes image = .ok (image.put address bytes)) := by
  have some_bytes := pos_of_legal legal
  refine ⟨fun fits puts image run => ?_, fun puts => putAll_succeeds_iff some_bytes, ?_⟩
  · exact holds_of_after legal fits (after_putAll some_bytes run)
  · rintro image rfl address bytes
    exact ⟨put_ok_iff some_bytes, Checked.put_eq address some_bytes⟩

/-- Five thousand sevens, the last of them on a second block. -/
def sevens : Bytes := ⟨Array.replicate 5000 7⟩

theorem size_sevens : sevens.size = 5000 := by simp [sevens, ByteArray.size]

theorem getPadded_sevens {i : Nat} (lt : i < 5000) : sevens.getPadded i = 7 := by
  rw [Bytes.getPadded_of_lt (by rw [size_sevens]; exact lt)]
  exact Array.getElem_replicate _

theorem covers_sevens_iff (address : BlockAddress) (block : Nat) :
    Covers 4096 (address, sevens) block ↔
      block = address.toNat ∨ block = address.toNat + 1 := by
  rw [covers_iff (by decide), size_sevens]
  omega

theorem covers_nine_iff (address : BlockAddress) (block : Nat) :
    Covers 4096 (address, ⟨#[9]⟩) block ↔ block = address.toNat := by
  have size_eq : ByteArray.size ⟨#[9]⟩ = 1 := rfl
  rw [covers_iff (by decide), size_eq]
  omega

/-- Of two puts on the second block the short one came last: nothing of the other shows behind
it. -/
theorem latest_pieces_short_last : ∃ image bytes source,
    putAll (blank 4096 3) [(0, sevens), (1, ⟨#[9]⟩)] = .ok image ∧ image.toBytes = .ok bytes ∧
      bytes.size = 12288 ∧ bytes.getPadded 4095 = 7 ∧ bytes.getPadded 4096 = 9 ∧
      bytes.getPadded 4097 = 0 ∧ bytes.getPadded 8192 = 0 ∧ image.toSource = .ok source ∧
      source.readBlock 1 = .ok (bytes.extract 4096 8192) ∧
      source.readBlock 3 = .error (.outOfRange 3 3) ∧
      ¬∃ image, putAll (blank 4096 3) [(2, sevens)] = .ok image := by
  obtain ⟨holds, succeeds_iff, -⟩ := @latest_pieces 4096 3 (by decide)
  have inside : ∀ put ∈ [(0, sevens), (1, ⟨#[9]⟩)], ∀ block,
      Covers 4096 put block → block < 3 := by
    simp [covers_sevens_iff, covers_nine_iff]
  obtain ⟨image, run⟩ := (succeeds_iff _).mpr inside
  obtain ⟨bytes, source, held⟩ := holds (by decide) _ image run
  have byte : ∀ block < 3, ∀ j < 4096, bytes.getPadded (block * 4096 + j)
      = byteAfter 4096 [(0, sevens), (1, ⟨#[9]⟩)] block j := held.byte_eq
  have first : ∀ j, byteAfter 4096 [(0, sevens), (1, ⟨#[9]⟩)] 0 j = sevens.getPadded j := by
    simp [byteAfter, latestOn, covers_sevens_iff, covers_nine_iff]
  have second : ∀ j, byteAfter 4096 [(0, sevens), (1, ⟨#[9]⟩)] 1 j
      = Bytes.getPadded ⟨#[9]⟩ j := by
    simp [byteAfter, latestOn, covers_nine_iff]
  have third : ∀ j, byteAfter 4096 [(0, sevens), (1, ⟨#[9]⟩)] 2 j = 0 := by
    simp [byteAfter, latestOn, covers_sevens_iff, covers_nine_iff]
  refine ⟨image, bytes, source, run, held.bytes_eq, held.size_eq, ?_, ?_, ?_, ?_, held.source_eq,
    held.read_eq 1, held.read_eq 3, fun succeeds => ?_⟩
  · rw [byte 0 (by decide) 4095 (by decide), first]
    exact getPadded_sevens (by decide)
  · rw [byte 1 (by decide) 0 (by decide), second]
    rfl
  · rw [byte 1 (by decide) 1 (by decide), second]
    rfl
  · rw [byte 2 (by decide) 0 (by decide), third]
  · have inside := (succeeds_iff _).mp succeeds _ List.mem_cons_self 3
      ((covers_sevens_iff 2 3).mpr (.inr rfl))
    exact absurd inside (by decide)

/-- The bytes of an image may be too many for a buffer, though not for the addresses. -/
theorem half_the_addresses_unheld : (4096 : UInt32) ∈ BlockSize.legal ∧
    UInt64.toNat 2251799813685248 * UInt32.toNat 4096 < Bytes.addressLimit ∧
    putAll (blank 4096 2251799813685248) [] = .ok (blank 4096 2251799813685248) ∧
    (blank 4096 2251799813685248).toBytes = .error .bufferSize ∧
    ¬∃ bytes, (blank 4096 2251799813685248).toBytes = .ok bytes := by
  have stops : (blank 4096 2251799813685248).toBytes = .error .bufferSize := by
    rw [toBytes, if_neg (by decide), if_pos (by decide)]
  refine ⟨by decide, by decide, rfl, stops, ?_⟩
  rintro ⟨bytes, made⟩
  rw [stops] at made
  cases made

end Finished

end Image

end ObjectStore
