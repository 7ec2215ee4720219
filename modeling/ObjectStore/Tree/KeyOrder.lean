import ObjectStore.Bytes.Order

/-
How the stored keys of a tree compare with what is looked for. Keys are compared in their
stored form, so a comparison fails where a key is too short to hold what it should.
-/
namespace ObjectStore.Tree

structure KeyOrder (τ : Type) where
  compare : ByteOrder → Bytes → τ → Except DecodeError Ordering
  /-- Whether a stored key is a version of what is looked for. -/
  sameIdentity : ByteOrder → Bytes → τ → Except DecodeError Bool
  describe : τ → String

namespace KeyOrder

/-- An order under which nothing but an equal key is a version of another. -/
def ofCompare (compare : ByteOrder → Bytes → τ → Except DecodeError Ordering)
    (describe : τ → String) : KeyOrder τ where
  compare := compare
  sameIdentity e stored target := (compare e stored target).map (· == .eq)
  describe := describe

def word : KeyOrder UInt64 :=
  ofCompare (fun e stored target => (e.read64 stored 0).map (Ord.compare · target)) toString

/-- The order of texts, with bytes for letters. -/
def compareBytes : List UInt8 → List UInt8 → Ordering
  | [], [] => .eq
  | [], _ :: _ => .lt
  | _ :: _, [] => .gt
  | a :: as, b :: bs => (Ord.compare a b).then (compareBytes as bs)

/-- Keys that are compared byte by byte, whatever they hold. -/
def bytes : KeyOrder Bytes :=
  ofCompare (fun _ stored target => .ok (compareBytes stored.data.toList target.data.toList))
    fun target => "[" ++ ", ".intercalate (target.data.toList.map toString) ++ "]"

end KeyOrder

end ObjectStore.Tree
