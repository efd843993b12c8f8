import ObjectPersistence.Value.Basic
import ObjectPersistence.Error

/-! # Stored tables

The relational content of a datastore: one header row per object, one row per scalar field,
one row per container element, and the named sequences. An element row has a position
within its field and, for a map entry, a key; a field's elements are read in position
order, rows of equal position in the order they were inserted. Each statement here is a
plain function on the tables; a statement that changes rows also tells how many it changed,
and one that would add a row for an object that is not stored is refused. -/

namespace ObjectPersistence.Datastore

/-- An object's header: its class and its version, if it is versioned. -/
structure ObjectRow where
  id : ObjectId
  cls : String
  version : Option Int
  deriving DecidableEq, Repr

/-- The stored value of a scalar field. -/
structure ScalarRow where
  owner : ObjectId
  field : Nat
  value : Value
  deriving DecidableEq, Repr

/-- The sixty-four bit two's complement integer with the low sixty-four bits of `n`: what a
count becomes as a signed integer, and what a sum becomes when it wraps around. -/
def wrap64 (n : Int) : Int :=
  let m := (n % (Nat.pow 2 64 : Int)).toNat
  if m < Nat.pow 2 63 then m else (m : Int) - Nat.pow 2 64

/-- The content of an integer column: a sequence's next value or an element's position. The
column keeps integers of sixty-four bits; a sum that leaves them is computed in doubles and
kept as a double, which a reader of integers refuses. A double is written here by its value,
which is an integer at these magnitudes. -/
inductive IntCell where
  | int (n : Int)
  | real (v : Int)
  deriving DecidableEq, Repr

namespace IntCell

def fits (n : Int) : Bool := -(Nat.pow 2 63 : Int) ≤ n && n < (Nat.pow 2 63 : Int)

/-- How the column keeps a double: as an integer when it is one strictly between the least
and the greatest sixty-four bit integer, as a double otherwise. -/
def ofReal (v : Int) : IntCell :=
  if -(Nat.pow 2 63 : Int) < v ∧ v < (Nat.pow 2 63 : Int) - 1 then int v else real v

def value : IntCell → Int
  | int n => n
  | real v => v

def atLeast (c : IntCell) (floor : Int) : IntCell :=
  if c.value < floor then int floor else c

/-- The cell advanced by a sixty-four bit step: in integers while the sum fits, otherwise
in doubles, each operand and the sum rounded to the nearest double. -/
def advance (c : IntCell) (step : Int) : IntCell :=
  match c with
  | int n =>
    if fits (n + step) then int (n + step)
    else ofReal (Binary64.nearestInt (Binary64.nearestInt n + Binary64.nearestInt step))
  | real v => ofReal (Binary64.nearestInt (v + Binary64.nearestInt step))

end IntCell

/-- One element of a stored container; a map entry carries its key. -/
structure ElementRow where
  rowid : Nat
  owner : ObjectId
  field : Nat
  position : IntCell
  element : Value
  key : Option Value
  deriving DecidableEq, Repr

/-- The tables of a datastore. Element rows are kept in insertion order. -/
structure Tables where
  objects : List ObjectRow := []
  scalars : List ScalarRow := []
  elements : List ElementRow := []
  sequences : List (String × IntCell) := []
  deriving DecidableEq, Repr, Inhabited

def ElementRow.inField (id : ObjectId) (field : Nat) (r : ElementRow) : Bool :=
  r.owner == id && r.field == field

namespace Tables

def header? (t : Tables) (id : ObjectId) : Option ObjectRow := t.objects.find? (·.id == id)

def objectCount (t : Tables) : Nat := t.objects.length

def insertObject (t : Tables) (row : ObjectRow) : Option Tables :=
  if (t.header? row.id).isSome then none else some { t with objects := t.objects ++ [row] }

def setVersion (t : Tables) (id : ObjectId) (version expected : Option Int) : Tables × Nat :=
  let hit := fun (r : ObjectRow) => r.id == id && r.version == expected
  ({ t with objects := t.objects.map fun r => if hit r then { r with version } else r },
    t.objects.countP hit)

def deleteObject (t : Tables) (id : ObjectId) : Tables × Nat :=
  ({ t with objects := t.objects.filter (·.id != id) }, t.objects.countP (·.id == id))

def deleteScalars (t : Tables) (id : ObjectId) : Tables × Nat :=
  ({ t with scalars := t.scalars.filter (·.owner != id) }, t.scalars.countP (·.owner == id))

def deleteElements (t : Tables) (id : ObjectId) : Tables × Nat :=
  ({ t with elements := t.elements.filter (·.owner != id) }, t.elements.countP (·.owner == id))

def scalar? (t : Tables) (id : ObjectId) (field : Nat) : Option Value :=
  (t.scalars.find? fun r => r.owner == id && r.field == field).map (·.value)

def putScalar (t : Tables) (id : ObjectId) (field : Nat) (v : Value) :
    Except DatabaseRefusal (Tables × Nat) :=
  if (t.header? id).isNone then .error .foreignKey
  else if (t.scalar? id field).isSome then
    .ok ({ t with scalars := t.scalars.map fun r =>
      if r.owner == id && r.field == field then { r with value := v } else r }, 1)
  else .ok ({ t with scalars := t.scalars ++ [⟨id, field, v⟩] }, 1)

def rowsOf (t : Tables) (id : ObjectId) (field : Nat) : List ElementRow :=
  (t.elements.filter (ElementRow.inField id field)).mergeSort fun a b =>
    a.position.value ≤ b.position.value

def clearField (t : Tables) (id : ObjectId) (field : Nat) : Tables × Nat :=
  ({ t with elements := t.elements.filter fun r => !ElementRow.inField id field r },
    t.elements.countP (ElementRow.inField id field))

def nextRowid (t : Tables) : Nat := (t.elements.map (·.rowid)).foldl max 0 + 1

def insertElement (t : Tables) (id : ObjectId) (field : Nat) (position : IntCell) (element : Value)
    (key : Option Value) : Except DatabaseRefusal (Tables × Nat) :=
  if (t.header? id).isNone then .error .foreignKey
  else .ok ({ t with elements := t.elements ++ [⟨t.nextRowid, id, field, position, element, key⟩] }, 1)

def nextPosition (t : Tables) (id : ObjectId) (field : Nat) : IntCell :=
  match (t.rowsOf id field).getLast? with
  | some r => r.position.advance 1
  | none => .int 0

def positionOf? (t : Tables) (id : ObjectId) (field : Nat) (element : Value) : Option IntCell :=
  ((t.rowsOf id field).find? (·.element == element)).map (·.position)

def keyPosition? (t : Tables) (id : ObjectId) (field : Nat) (key : Value) : Option IntCell :=
  ((t.rowsOf id field).find? (·.key == some key)).map (·.position)

def shift (t : Tables) (id : ObjectId) (field : Nat) (moves : Int → Bool) (delta : Int) :
    Tables × Nat :=
  let hit := fun (r : ElementRow) => ElementRow.inField id field r && moves r.position.value
  ({ t with elements := t.elements.map fun r =>
      if hit r then { r with position := r.position.advance delta } else r },
    t.elements.countP hit)

def deleteAt (t : Tables) (id : ObjectId) (field : Nat) (position : Int) : Tables × Nat :=
  let hit := fun (r : ElementRow) =>
    ElementRow.inField id field r && r.position.value == position
  ({ t with elements := t.elements.filter fun r => !hit r }, t.elements.countP hit)

def setEntry (t : Tables) (id : ObjectId) (field : Nat) (key v : Value) : Tables × Nat :=
  let hit := fun (r : ElementRow) => ElementRow.inField id field r && r.key == some key
  ({ t with elements := t.elements.map fun r => if hit r then { r with element := v } else r },
    t.elements.countP hit)

def sequence? (t : Tables) (name : String) : Option IntCell := t.sequences.lookup name

def createSequence (t : Tables) (name : String) (start : IntCell) : Tables × Nat :=
  if (t.sequence? name).isSome then (t, 0) else ({ t with sequences := t.sequences ++ [(name, start)] }, 1)

def updateSequence (t : Tables) (name : String) (f : IntCell → IntCell) : Tables × Nat :=
  ({ t with sequences := t.sequences.map fun (n, v) => if n == name then (n, f v) else (n, v) },
    t.sequences.countP (·.1 == name))

end Tables

end ObjectPersistence.Datastore
