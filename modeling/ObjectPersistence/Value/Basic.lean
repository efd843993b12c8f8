import ObjectPersistence.Value.Id
import ObjectPersistence.Binary64.Round

/-! # Field values

A field holds a value of one of eight kinds. Values are totally ordered: values of different
kinds by a fixed rank of the kind (null, boolean, integer, float, timestamp, text, bytes,
reference), values of one kind by their natural order, floats by the total order of their
bits. Two values are equal exactly when the order finds them equal, so floats are equal
exactly when their bits are. -/

namespace ObjectPersistence

/-- A value held by a field. Integers and timestamps are 64-bit signed numbers; a float is
kept as its 64 bits. -/
inductive Value where
  | null
  | text (s : String)
  | integer (n : Int)
  | float (bits : UInt64)
  | boolean (b : Bool)
  | timestamp (t : Int)
  | ref (id : ObjectId)
  | bytes (data : List UInt8)
  deriving DecidableEq, Repr, Hashable, Inhabited

namespace Value

/-- The rank of a value's kind in the order of values. -/
def rank : Value → Nat
  | null => 0
  | boolean _ => 1
  | integer _ => 2
  | float _ => 3
  | timestamp _ => 4
  | text _ => 5
  | bytes _ => 6
  | ref _ => 7

/-- Lexicographic order of byte strings. -/
def compareBytes : List UInt8 → List UInt8 → Ordering
  | [], [] => .eq
  | [], _ :: _ => .lt
  | _ :: _, [] => .gt
  | a :: as, b :: bs =>
    match compare a.toNat b.toNat with
    | .eq => compareBytes as bs
    | o => o

def compareText (a b : String) : Ordering :=
  compareOfLessAndEq a b

/-- The total order of values. -/
def compare : Value → Value → Ordering
  | text a, text b => compareText a b
  | integer a, integer b => Ord.compare a b
  | float a, float b => Binary64.totalCompare a b
  | boolean a, boolean b => Ord.compare a b
  | timestamp a, timestamp b => Ord.compare a b
  | ref a, ref b => Ord.compare a b
  | bytes a, bytes b => compareBytes a b
  | a, b => Ord.compare a.rank b.rank

instance : Ord Value := ⟨compare⟩

def le (a b : Value) : Bool := compare a b != .gt

def sort (vs : List Value) : List Value := vs.mergeSort le

def dedupAdjacent : List Value → List Value
  | a :: b :: rest => if a = b then dedupAdjacent (b :: rest) else a :: dedupAdjacent (b :: rest)
  | l => l

def distinct (vs : List Value) : List Value := dedupAdjacent (sort vs)

def isNull : Value → Bool
  | null => true
  | _ => false

def isPersistable : Value → Bool
  | ref _ => true
  | _ => false

def refId? : Value → Option ObjectId
  | ref id => some id
  | _ => none

def text? : Value → Option String
  | text s => some s
  | _ => none

def integer? : Value → Option Int
  | integer n => some n
  | _ => none

def boolean? : Value → Option Bool
  | boolean b => some b
  | _ => none

end Value

end ObjectPersistence
