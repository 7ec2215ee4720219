import ObjectStore.Draft.BuildError
import ObjectStore.Source.BlockSource

/-
Images to be built from blocks put here and there. A block that nothing was put on is zero.
-/
namespace ObjectStore

structure Image where
  blockSize : UInt32
  blockCount : UInt64
  /-- What was put on blocks, the latest first. -/
  placed : List (BlockAddress × Bytes)
  deriving DecidableEq

namespace Image

def blank (blockSize : UInt32) (blockCount : UInt64) : Image := ⟨blockSize, blockCount, []⟩

def block? (image : Image) (address : BlockAddress) : Option Bytes :=
  image.placed.lookup address

/-- A block's worth of bytes from the piece number `i` of `bytes`, filled up with zeros. -/
def piece (size : Nat) (bytes : Bytes) (i : Nat) : Bytes :=
  let part := bytes.extract (i * size) ((i + 1) * size)
  part ++ Bytes.zeros (size - part.size)

/-- Puts the pieces from number `i` on, one to a block. Pieces before a failure stay. -/
def putPieces (address : BlockAddress) (bytes : Bytes) (i : Nat) :
    Nat → Image → Except BuildError Unit × Image
  | 0, image => (.ok (), image)
  | left + 1, image =>
    let block := address.toNat + i
    if image.blockCount.toNat ≤ block then
      (.error (.beyondImage block image.blockCount.toNat), image)
    else
      putPieces address bytes (i + 1) left
        { image with
          placed := (block.toUInt64, piece image.blockSize.toNat bytes i) :: image.placed }

def put (address : BlockAddress) (bytes : Bytes) (image : Image) :
    Except BuildError Unit × Image :=
  let size := image.blockSize.toNat
  putPieces address bytes 0 ((bytes.size + size - 1) / size) image

def written (image : Image) (address : BlockAddress) : Except BuildError Bytes :=
  match image.block? address with
  | some block => .ok block
  | none => .error (.neverWritten address)

def edit (image : Image) (address : BlockAddress) (change : Bytes → Bytes) :
    Except BuildError Image := do
  let block ← image.written address
  return { image with placed := (address, change block) :: image.placed }

def blocks (image : Image) : List Bytes :=
  let blank := Bytes.zeros image.blockSize.toNat
  (List.range image.blockCount.toNat).map fun i => (image.block? i.toUInt64).getD blank

/-- Blocks without bytes make up an empty image, however many they are. -/
def toBytes (image : Image) : Except BuildError Bytes :=
  let total := image.blockCount.toNat * image.blockSize.toNat
  if Bytes.addressLimit ≤ total then .error .imageSize
  else if Bytes.bufferLimit ≤ total then .error .bufferSize
  else if image.blockSize = 0 then .ok ByteArray.empty
  else .ok (image.blocks.foldl (· ++ ·) ByteArray.empty)

def toSource (image : Image) : Except BuildError (BlockSource (Except StoreError)) := do
  let size ← (BlockSize.ofWord image.blockSize).mapError .decode
  let bytes ← image.toBytes
  (BlockSource.ofBytes bytes size).mapError .store

end Image

end ObjectStore
