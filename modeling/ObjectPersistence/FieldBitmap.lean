/-! # Field bitmaps

One bit per field number, in words of 64 bits. A bitmap of length `n` owns `⌈n / 64⌉` words.
Setting, clearing and reading a bit only look at fields below the length. A union takes the
other bitmap's words as far as both have words, so bits of a longer bitmap may land past the
length inside the last word: they are counted, but no field reads them. -/

namespace ObjectPersistence

/-- A set of field numbers below `len`, kept as the bits of `mask`. -/
structure FieldBitmap where
  len : Nat
  mask : Nat
  deriving DecidableEq, Repr, Inhabited

namespace FieldBitmap

def wordCount (b : FieldBitmap) : Nat := (b.len + 63) / 64

def capacity (b : FieldBitmap) : Nat := 64 * b.wordCount

def empty (len : Nat) : FieldBitmap := ⟨len, 0⟩

def full (len : Nat) : FieldBitmap := ⟨len, Nat.pow 2 len - 1⟩

/-- Whether the field is below the length and set. -/
def get (b : FieldBitmap) (field : Nat) : Bool :=
  field < b.len && b.mask.testBit field

def set (b : FieldBitmap) (field : Nat) : FieldBitmap × Bool :=
  if field < b.len then
    (⟨b.len, b.mask ||| Nat.pow 2 field⟩, !b.mask.testBit field)
  else (b, false)

/-- Clears a field below the length. -/
def clear (b : FieldBitmap) (field : Nat) : FieldBitmap :=
  if field < b.len ∧ b.mask.testBit field then ⟨b.len, b.mask - Nat.pow 2 field⟩ else b

def clearAll (b : FieldBitmap) : FieldBitmap := ⟨b.len, 0⟩

def count (b : FieldBitmap) : Nat :=
  (List.range b.capacity).countP fun i => b.mask.testBit i

def any (b : FieldBitmap) : Bool := b.mask != 0

def isEmpty (b : FieldBitmap) : Bool := b.len == 0

def setFields (b : FieldBitmap) : List Nat :=
  (List.range b.len).filter b.get

def select (b : FieldBitmap) (candidates : List Nat) (state : Bool) : List Nat :=
  candidates.filter fun f => b.get f == state

def union (b other : FieldBitmap) : FieldBitmap :=
  ⟨b.len, b.mask ||| other.mask % Nat.pow 2 (64 * min b.wordCount other.wordCount)⟩

def setAll (b : FieldBitmap) (fields : List Nat) : FieldBitmap :=
  fields.foldl (fun acc f => (acc.set f).1) b

end FieldBitmap

end ObjectPersistence
