import ObjectStore.Bytes.Codec
import ObjectStore.Object.Reference

/-
The header in front of every object, with its identifier, its transaction and its type word.
-/
namespace ObjectStore

structure ObjectHeader where
  checksum : UInt64
  oid : ObjectId
  xid : TransactionId
  typeWord : UInt32
  subtype : UInt32
  deriving DecidableEq, Repr

namespace ObjectHeader

def codec : Codec ObjectHeader :=
  (Codec.word64.seq <| Codec.word64.seq <| Codec.word64.seq <| Codec.word32.seq
      Codec.word32).map
    (fun (checksum, oid, xid, typeWord, subtype) => ⟨checksum, oid, xid, typeWord, subtype⟩)
    (fun h => (h.checksum, h.oid, h.xid, h.typeWord, h.subtype))

def size : Nat := 32

def parse (e : ByteOrder) (b : Bytes) : Except DecodeError ObjectHeader := codec.decode e b

/-- Writes the checksum field as it stands; `Object.writeChecksum` computes it over the finished
object. -/
def encode (e : ByteOrder) (h : ObjectHeader) : Encoder Unit := codec.write e 0 h

def typeCode (h : ObjectHeader) : UInt32 := TypeWord.code h.typeWord
def typeFlags (h : ObjectHeader) : UInt32 := TypeWord.flags h.typeWord
def typeName (h : ObjectHeader) : String := TypeWord.name h.typeWord
def storage? (h : ObjectHeader) : Option StorageClass := TypeWord.storage? h.typeWord
def isEncrypted (h : ObjectHeader) : Bool := hasFlag h.typeWord TypeWord.encryptedFlag
def hasNoHeader (h : ObjectHeader) : Bool := hasFlag h.typeWord TypeWord.noHeaderFlag

def expectCode (h : ObjectHeader) (code : UInt32) : Except DecodeError Unit :=
  if h.typeCode = code then .ok ()
  else .error (.invalidField "o_type" "unexpected object type")

end ObjectHeader

end ObjectStore
