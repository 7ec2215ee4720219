import ObjectStore.Draft.Container
import ObjectStore.Proofs.ImageReads
import ObjectStore.Proofs.NodeParts

/-
Images that have been built block by block. What was put last on a block is what a source over
the image reads there.
-/
namespace ObjectStore

open NodeDraft

namespace Image

variable {image image' : Image} {address : BlockAddress} {bytes : Bytes}

theorem piece_of_block {size : Nat} (size_eq : bytes.size = size) : piece size bytes 0 = bytes := by
  have whole : bytes.extract (0 * size) ((0 + 1) * size) = bytes := by
    rw [Nat.zero_mul, Nat.zero_add, Nat.one_mul, ← size_eq, ByteArray.extract_zero_size]
  have no_more : Bytes.zeros (size - bytes.size) = ByteArray.empty := by
    rw [size_eq, Nat.sub_self]
    rfl
  rw [piece, whole, no_more, ByteArray.append_empty]

theorem pieces_of_block {size : Nat} (some_bytes : 0 < size) : (size + size - 1) / size = 1 := by
  rw [show size + size - 1 = size * 1 + (size - 1) by omega, Nat.mul_add_div some_bytes,
    Nat.div_eq_of_lt (by omega)]

/-- A block's worth of bytes is put on one block, which the image must have. -/
theorem put_eq (some_bytes : 0 < image.blockSize.toNat)
    (size_eq : bytes.size = image.blockSize.toNat) :
    image.put address bytes = if image.blockCount.toNat ≤ address.toNat
      then (.error (.beyondImage address.toNat image.blockCount.toNat), image)
      else (.ok (), { image with placed := (address, bytes) :: image.placed }) := by
  have same : (address.toNat + 0).toUInt64 = address := by
    rw [Nat.add_zero, Nat.toUInt64_eq, UInt64.ofNat_toNat]
  rw [put, size_eq, pieces_of_block some_bytes, putPieces, same, piece_of_block size_eq,
    putPieces, Nat.add_zero]

theorem blockSize_putPieces (address : BlockAddress) (bytes : Bytes) (i left : Nat)
    (image : Image) : (putPieces address bytes i left image).2.blockSize = image.blockSize := by
  induction left generalizing i image with
  | zero => rfl
  | succ left ih =>
    rw [putPieces]
    split
    · rfl
    · exact ih _ _

def Filled (image : Image) : Prop :=
  ∀ address bytes, (address, bytes) ∈ image.placed → bytes.size = image.blockSize.toNat

end Image

namespace ContainerDraft

theorem blockSize_putAll {image image' : Image} {pending : List Pending}
    (run : putAll image pending = .ok image') : image'.blockSize = image.blockSize := by
  induction pending generalizing image with
  | nil =>
    cases run
    rfl
  | cons p rest ih =>
    obtain ⟨address, bytes⟩ := p
    have kept := Image.blockSize_putPieces address bytes 0
      ((bytes.size + image.blockSize.toNat - 1) / image.blockSize.toNat) image
    have step : image.put address bytes = Image.putPieces address bytes 0
      ((bytes.size + image.blockSize.toNat - 1) / image.blockSize.toNat) image := rfl
    rw [putAll, step] at run
    rcases put : Image.putPieces address bytes 0
      ((bytes.size + image.blockSize.toNat - 1) / image.blockSize.toNat) image
      with ⟨result | result, image''⟩
    · rw [put] at run
      cases run
    · rw [put] at run kept
      rw [ih run, ← kept]

/-- An image with everything put on it has the same dimensions, and all of it is inside. -/
theorem putAll_eq_ok {image image' : Image} {pending : List Pending}
    (some_bytes : 0 < image.blockSize.toNat)
    (sizes : ∀ p ∈ pending, p.2.size = image.blockSize.toNat)
    (run : putAll image pending = .ok image') :
    image' = { image with placed := pending.reverse ++ image.placed } ∧
      ∀ p ∈ pending, p.1.toNat < image.blockCount.toNat := by
  induction pending generalizing image with
  | nil =>
    cases run
    exact ⟨rfl, by simp⟩
  | cons p rest ih =>
    obtain ⟨address, bytes⟩ := p
    rw [putAll, Image.put_eq some_bytes (sizes _ List.mem_cons_self)] at run
    by_cases beyond : image.blockCount.toNat ≤ address.toNat
    · rw [if_pos beyond] at run
      cases run
    · rw [if_neg beyond] at run
      have some_bytes' : 0 < ({ image with placed := (address, bytes) :: image.placed } :
        Image).blockSize.toNat := some_bytes
      have sizes' := fun p mem => sizes p (List.mem_cons_of_mem _ mem)
      obtain ⟨same, inside⟩ := ih some_bytes' sizes' run
      refine ⟨?_, fun p mem => ?_⟩
      · rw [same, List.reverse_cons, List.append_assoc]
        rfl
      · rcases List.mem_cons.mp mem with first | later
        · rw [first]
          exact Nat.lt_of_not_le beyond
        · exact inside p later

theorem putAll_succeeds {image : Image} {pending : List Pending}
    (some_bytes : 0 < image.blockSize.toNat)
    (sizes : ∀ p ∈ pending, p.2.size = image.blockSize.toNat)
    (inside : ∀ p ∈ pending, p.1.toNat < image.blockCount.toNat) :
    ∃ image', putAll image pending = .ok image' := by
  induction pending generalizing image with
  | nil => exact ⟨image, rfl⟩
  | cons p rest ih =>
    obtain ⟨address, bytes⟩ := p
    have here := inside _ List.mem_cons_self
    rw [putAll, Image.put_eq some_bytes (sizes _ List.mem_cons_self), if_neg (Nat.not_le.mpr here)]
    have some_bytes' : 0 < ({ image with placed := (address, bytes) :: image.placed } :
      Image).blockSize.toNat := some_bytes
    exact ih some_bytes' (fun p mem => sizes p (List.mem_cons_of_mem _ mem))
      (fun p mem => inside p (List.mem_cons_of_mem _ mem))

end ContainerDraft

namespace Image

variable {image : Image}

theorem size_blocks (filled : image.Filled) {block : Bytes} (mem : block ∈ image.blocks) :
    block.size = image.blockSize.toNat := by
  obtain ⟨i, -, same⟩ := List.mem_map.mp mem
  rw [← same]
  cases put : image.block? i.toUInt64 with
  | none => exact Bytes.size_zeros _
  | some bytes =>
    obtain ⟨l, r, placed, -⟩ := List.lookup_eq_some_iff.mp put
    apply filled i.toUInt64 bytes
    rw [placed]
    exact List.mem_append_right _ List.mem_cons_self

theorem length_blocks (image : Image) : image.blocks.length = image.blockCount.toNat := by
  rw [blocks, List.length_map, List.length_range]

theorem size_concat_blocks (filled : image.Filled) :
    (concat image.blocks).size = image.blockCount.toNat * image.blockSize.toNat := by
  rw [size_concat, total_const fun block mem => image.size_blocks filled mem, length_blocks]

theorem getElem_blocks {i : Nat} (h : i < image.blocks.length) :
    image.blocks[i] = (image.block? i.toUInt64).getD (Bytes.zeros image.blockSize.toNat) := by
  simp only [blocks, List.getElem_map, List.getElem_range]

end Image

theorem extract_concat {parts : List Bytes} {n : Nat} (each : ∀ p ∈ parts, p.size = n) {i : Nat}
    (h : i < parts.length) :
    (concat parts).extract (i * n) ((i + 1) * n) = parts[i] := by
  have size_eq : (concat parts).size = parts.length * n := by
    rw [size_concat, total_const each]
  have before : total (parts.take i) = i * n := by
    rw [total_const fun p mem => each p (List.mem_of_mem_take mem), List.length_take,
      Nat.min_eq_left (Nat.le_of_lt h)]
  have here : parts[i].size = n := each _ (List.getElem_mem h)
  have split : parts = parts.take i ++ parts[i] :: parts.drop (i + 1) := by simp
  have stop : (i + 1) * n = i * n + n := by rw [Nat.add_mul, Nat.one_mul]
  have fits : (i + 1) * n ≤ parts.length * n := Nat.mul_le_mul_right n h
  apply Bytes.ext_getPadded
  · rw [Bytes.size_extract_of_le (by omega), here]
    omega
  · intro j lt
    rw [Bytes.size_extract_of_le (by omega)] at lt
    have inside : (concat (parts.take i ++ parts[i] :: parts.drop (i + 1))).getPadded
        (total (parts.take i) + j) = parts[i].getPadded j := getPadded_concat (by omega)
    rw [← split, before] at inside
    rw [Bytes.getPadded_extract (by omega), inside]

structure Image.Shown (image : Image) (contents : Bytes) (size : BlockSize)
    (source : BlockSource (Except StoreError)) : Prop where
  opened : BlockSource.ofBytes contents size = .ok source
  legal : size.bytes ∈ BlockSize.legal
  size_eq : size.bytes = image.blockSize
  addressable : contents.size < Bytes.addressLimit
  counted : source.blockCount = image.blockCount
  blocks_eq : ∀ address bytes, image.block? address = some bytes →
    address.toNat < image.blockCount.toNat →
    contents.blocks size.toNat address.toNat 1 = bytes ∧ source.readBlock address = .ok bytes
  blanks_eq : ∀ address, image.block? address = none → address.toNat < image.blockCount.toNat →
    contents.blocks size.toNat address.toNat 1 = Bytes.zeros size.toNat

theorem ne_zero_of_legal {size : UInt32} (legal : size ∈ BlockSize.legal) : size ≠ 0 := by
  intro zero
  rw [zero] at legal
  exact absurd legal (by decide)

theorem pos_of_legal {size : UInt32} (legal : size ∈ BlockSize.legal) : 0 < size.toNat :=
  Nat.pos_of_ne_zero fun zero => ne_zero_of_legal legal (UInt32.toNat_inj.mp zero)

theorem Image.toSource_eq_ok {image : Image} {source : BlockSource (Except StoreError)}
    (shown : image.toSource = .ok source) : image.blockSize ∈ BlockSize.legal ∧
      image.blockCount.toNat * image.blockSize.toNat < Bytes.bufferLimit ∧
      BlockSource.ofBytes (concat image.blocks) ⟨image.blockSize⟩ = .ok source := by
  obtain ⟨size, size_ok, rest⟩ := bind_eq_ok.mp shown
  obtain ⟨contents, contents_ok, opened⟩ := bind_eq_ok.mp rest
  obtain ⟨size_eq, legal⟩ := BlockSize.ofWord_eq_ok (mapError_eq_ok.mp size_ok)
  have opened := mapError_eq_ok.mp opened
  unfold toBytes at contents_ok
  dsimp only at contents_ok
  split at contents_ok
  · cases contents_ok
  · split at contents_ok
    · cases contents_ok
    · rename_i held
      rw [if_neg (ne_zero_of_legal legal)] at contents_ok
      cases contents_ok
      rw [size_eq] at opened
      exact ⟨legal, Nat.lt_of_not_le held, opened⟩

theorem Image.blockCount_of_toSource {image : Image} {source : BlockSource (Except StoreError)}
    (filled : image.Filled) (shown : image.toSource = .ok source) :
    source.blockCount = image.blockCount := by
  obtain ⟨legal, -, opened⟩ := toSource_eq_ok shown
  obtain ⟨-, -, counted, -, -⟩ := BlockSource.ofBytes_eq_ok opened
  have some_bytes := pos_of_legal legal
  have quotient : (concat image.blocks).size / image.blockSize.toNat = image.blockCount.toNat := by
    rw [image.size_concat_blocks filled, Nat.mul_div_cancel _ some_bytes]
  have count_eq : source.blockCount
      = ((concat image.blocks).size / image.blockSize.toNat).toUInt64 := counted
  rw [count_eq, quotient, Nat.toUInt64_eq, UInt64.ofNat_toNat]

theorem Image.shown_of_toSource {image : Image} {source : BlockSource (Except StoreError)}
    (filled : image.Filled) (shown : image.toSource = .ok source) :
    ∃ contents size, image.Shown contents size source := by
  obtain ⟨legal, held, opened⟩ := toSource_eq_ok shown
  have counted := blockCount_of_toSource filled shown
  have fits : (concat image.blocks).size < Bytes.addressLimit := by
    rw [image.size_concat_blocks filled]
    exact Bytes.addressable_of_buffer held
  have holds : ∀ address : BlockAddress, address.toNat < image.blockCount.toNat →
      (concat image.blocks).blocks image.blockSize.toNat address.toNat 1
        = (image.block? address).getD (Bytes.zeros image.blockSize.toNat) := by
    intro address inside
    have listed : address.toNat < image.blocks.length := by
      rw [length_blocks]
      exact inside
    rw [Bytes.blocks, extract_concat (fun block mem => image.size_blocks filled mem) listed,
      getElem_blocks, Nat.toUInt64_eq, UInt64.ofNat_toNat]
  refine ⟨concat image.blocks, ⟨image.blockSize⟩, opened, legal, rfl, fits, counted, ?_, ?_⟩
  · intro address bytes put inside
    have read := holds address inside
    rw [put, Option.getD_some] at read
    refine ⟨read, ?_⟩
    rw [BlockSource.readBlock_eq opened fits (by rw [counted]; exact inside)]
    exact congrArg Except.ok read
  · intro address blank inside
    have read := holds address inside
    rwa [blank, Option.getD_none] at read

theorem Image.toBytes_eq {image : Image} (legal : image.blockSize ∈ BlockSize.legal)
    (held : image.blockCount.toNat * image.blockSize.toNat < Bytes.bufferLimit) :
    image.toBytes = .ok (concat image.blocks) := by
  rw [toBytes, if_neg (Nat.not_le.mpr (Bytes.addressable_of_buffer held)),
    if_neg (Nat.not_le.mpr held), if_neg (ne_zero_of_legal legal)]
  rfl

theorem Image.toSource_succeeds {image : Image} (filled : image.Filled)
    (legal : image.blockSize ∈ BlockSize.legal)
    (held : image.blockCount.toNat * image.blockSize.toNat < Bytes.bufferLimit) :
    ∃ source, image.toSource = .ok source := by
  have size_eq := image.size_concat_blocks filled
  have size_ok : BlockSize.ofWord image.blockSize = .ok ⟨image.blockSize⟩ := if_pos legal
  have bytes_ok := toBytes_eq legal held
  have whole : ¬(Device.ofBytes (concat image.blocks)).length
      % (BlockSize.mk image.blockSize).toNat ≠ 0 := by
    intro rest
    apply rest
    change (concat image.blocks).size % image.blockSize.toNat = 0
    rw [size_eq, Nat.mul_mod_left]
  obtain ⟨source, opened⟩ : ∃ source,
      BlockSource.ofBytes (concat image.blocks) ⟨image.blockSize⟩ = .ok source := by
    rw [BlockSource.ofBytes, BlockSource.ofDevice]
    dsimp only
    rw [if_neg whole]
    exact ⟨_, rfl⟩
  exact ⟨source, bind_eq_ok.mpr ⟨_, mapError_eq_ok.mpr size_ok,
    bind_eq_ok.mpr ⟨_, bytes_ok, mapError_eq_ok.mpr opened⟩⟩⟩

end ObjectStore
