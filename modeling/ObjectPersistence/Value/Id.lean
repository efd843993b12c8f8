import ObjectPersistence.Text.Hex

/-! # Object identifiers

An object is named by a 128-bit identifier. Identifiers are ordered as unsigned numbers,
which is the order of their sixteen big-endian bytes, and they are written in the canonical
8-4-4-4-12 form of lowercase hexadecimal digits. -/

namespace ObjectPersistence

/-- The identity of a persistent object: a 128-bit number. -/
structure ObjectId where
  val : Nat
  deriving DecidableEq, Repr, Hashable, Inhabited

namespace ObjectId

instance : Ord ObjectId := ⟨fun a b => compare a.val b.val⟩

instance : LT ObjectId := ⟨fun a b => a.val < b.val⟩

instance (a b : ObjectId) : Decidable (a < b) := inferInstanceAs (Decidable (a.val < b.val))

def toHex (id : ObjectId) : String :=
  String.ofList (Hex.digits id.val 32)

def toUuidString (id : ObjectId) : String :=
  let d := Hex.digits id.val 32
  String.ofList (d.take 8 ++ '-' :: (d.drop 8).take 4 ++ '-' :: (d.drop 12).take 4 ++
    '-' :: (d.drop 16).take 4 ++ '-' :: d.drop 20)

def bytesBE (n : Nat) : Nat → List UInt8
  | 0 => []
  | count + 1 => bytesBE (n / 256) count ++ [(n % 256).toUInt8]

def toBytes (id : ObjectId) : List UInt8 := bytesBE id.val 16

def bytesValue (bytes : List UInt8) : Nat :=
  bytes.foldl (fun acc b => acc * 256 + b.toNat) 0

def ofBytes (bytes : List UInt8) : ObjectId := ⟨bytesValue bytes⟩

/-- The `n`-th fresh identifier. Fresh identifiers are version-7 uuids of one timestamp,
counting up, so later ones sort after earlier ones. -/
def fresh (n : Nat) : ObjectId := ⟨0x01900000000070008000000000000000 + n + 1⟩

end ObjectId

end ObjectPersistence
