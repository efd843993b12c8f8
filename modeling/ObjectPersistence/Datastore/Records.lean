import ObjectPersistence.Datastore.Connection
import ObjectPersistence.Schema.Class
import ObjectPersistence.Value.FieldData

/-! # Records in the datastore

How objects are kept in the tables. A record is an object's header and the data of some of
its fields. Inserting writes all given fields; updating moves the version on, provided the
stored version is the one expected, and writes the given fields anew; deleting checks the
version too. A scalar field is one row; a collection or a map is one row per element in
position order, a map row carrying its key. Loading reads each field by the shape its
class declares. A structural change to one container field is applied in place: elements
are appended or inserted at a position (later ones move up), removed by value, position or
key (later ones move down), and a map entry replaces the value of every row with its key.
Sequences hand out blocks of consecutive integers, never starting below a given floor. -/

namespace ObjectPersistence.Datastore

/-- What the datastore knows of a stored object without its fields. -/
structure ObjectHeader where
  id : ObjectId
  cls : String
  version : Option Int
  deriving DecidableEq, Repr

/-- An object's header with the data of some of its fields. -/
structure ObjectRecord where
  id : ObjectId
  cls : String
  version : Option Int
  fields : List (Nat × FieldData)
  deriving DecidableEq, Repr

/-- A stored map, with its keys and values that have an identity of their own fetched
apart when the field declares them so. -/
structure MapFetch where
  keys : Option (List Value) := none
  values : Option (List Value) := none
  entries : List (Value × Value) := []
  deriving DecidableEq, Repr, Inhabited

namespace Access

def header? (id : ObjectId) : Access (Option ObjectHeader) :=
  read fun t => (t.header? id).map fun r => ⟨r.id, r.cls, r.version⟩

def objectCount : Access Nat := read Tables.objectCount

def member (c : ClassMeta) (n : Nat) : Access FieldMeta :=
  match c.member n with
  | .ok m => pure m
  | .error e => throw (.core e)

/-- Writes the data of one field, replacing what was stored. -/
def writeField (id : ObjectId) (field : Nat) : FieldData → Access Unit
  | .scalar v => discard <| write fun t => t.putScalar id field v
  | .collection items => do
    discard <| change fun t => t.clearField id field
    for (item, i) in items.zipIdx do
      discard <| write fun t => t.insertElement id field (.int i) item none
  | .map es => do
    discard <| change fun t => t.clearField id field
    for ((k, v), i) in es.zipIdx do
      discard <| write fun t => t.insertElement id field (.int i) v (some k)

def entriesOf (field : Nat) (rows : List ElementRow) : Access (List (Value × Value)) :=
  rows.mapM fun r =>
    match r.key with
    | some k => pure (k, r.element)
    | none => throw (.keylessEntry field)

/-- Loads fields of a stored object, each by the shape its class declares. -/
def load (id : ObjectId) (c : ClassMeta) (fields : List Nat) : Access (List (Nat × FieldData)) := do
  if (← header? id).isNone then throw (.notFound id)
  fields.mapM fun field => do
    let m ← member c field
    if m.isMap then
      pure (field, .map (← entriesOf field (← read fun t => t.rowsOf id field)))
    else if m.isCollection then
      pure (field, .collection ((← read fun t => t.rowsOf id field).map (·.element)))
    else pure (field, .scalar ((← read fun t => t.scalar? id field).getD .null))

def snapshot (id : ObjectId) (c : ClassMeta) : Access (List (Nat × FieldData)) :=
  load id c (List.range c.fieldCount)

def identityKeys (rows : List ElementRow) : List Value :=
  rows.foldl (fun acc r =>
    match r.key with
    | some k => if k.isPersistable && !acc.contains k then acc ++ [k] else acc
    | none => acc) []

/-- Loads a map field. -/
def loadMap (id : ObjectId) (c : ClassMeta) (field : Nat) : Access MapFetch := do
  let policy := (← member c field).policy
  let rows ← read fun t => t.rowsOf id field
  let keys := if policy.keysHaveIdentity then some (identityKeys rows) else none
  let values :=
    if policy.valuesHaveIdentity then some ((rows.map (·.element)).filter Value.isPersistable)
    else none
  pure { keys, values, entries := ← entriesOf field rows }

/-- Stores a new object. -/
def insert (r : ObjectRecord) : Access Unit := do
  let added ← write fun t =>
    match t.insertObject ⟨r.id, r.cls, r.version⟩ with
    | some t' => .ok (t', 1)
    | none => .ok (t, 0)
  if added == 0 then throw (.duplicateObject r.id)
  for (field, data) in r.fields do
    writeField r.id field data

/-- Moves a stored object from the expected version to the record's and writes anew the
record's fields. -/
def update (r : ObjectRecord) (expected : Option Int) : Access Unit := do
  let changed ← change fun t => t.setVersion r.id r.version expected
  if changed == 0 then
    match ← header? r.id with
    | some h => throw (.optimisticConflict r.id expected h.version)
    | none => throw (.notFound r.id)
  for (field, data) in r.fields do
    writeField r.id field data

/-- Removes a stored object of the given version. -/
def delete (id : ObjectId) (version : Option Int) : Access Unit := do
  match ← header? id with
  | none => throw (.notFound id)
  | some h => if h.version != version then throw (.optimisticConflict id version h.version)
  discard <| change fun t => t.deleteElements id
  discard <| change fun t => t.deleteScalars id
  discard <| change fun t => t.deleteObject id

def integer (column : String) : IntCell → Access Int
  | .int n => pure n
  | .real _ => throw (.database (.notInteger column))

/-- Removes the rows at a position of a field and closes the gap. -/
def removeAt (id : ObjectId) (field : Nat) (p : Int) : Access Unit := do
  let n ← change fun t => t.deleteAt id field p
  if n > 0 then discard <| change fun t => t.shift id field (· > p) (-1)

/-- Applies one structural change to a container field. -/
def apply (op : Operation) (c : ClassMeta) : Access Unit := do
  let m ← member c op.field
  let some shape := m.container | throw (.notContainer m.name c.name)
  let id := op.owner
  let field := op.field
  let next := "COALESCE(MAX(position) + 1, 0)"
  match op.kind, op.payload with
  | .add, .element e =>
    let present ← if shape == .set || shape == .sortedSet then
        match ← read fun t => t.positionOf? id field e with
        | some p => do discard <| integer "position" p; pure true
        | none => pure false
      else pure false
    if !present then
      let p ← integer next (← read fun t => t.nextPosition id field)
      discard <| write fun t => t.insertElement id field (.int p) e none
  | .add, .indexed i e =>
    discard <| change fun t => t.shift id field (· ≥ wrap64 i) 1
    discard <| write fun t => t.insertElement id field (.int (wrap64 i)) e none
  | .add, .entry k v =>
    if (← change fun t => t.setEntry id field k v) == 0 then
      let p ← integer next (← read fun t => t.nextPosition id field)
      discard <| write fun t => t.insertElement id field (.int p) v (some k)
  | .remove, .element e =>
    if let some p ← read fun t => t.positionOf? id field e then
      removeAt id field (← integer "MIN(position)" p)
  | .remove, .indexed i _ => removeAt id field (wrap64 i)
  | .remove, .key k =>
    if let some p ← read fun t => t.keyPosition? id field k then
      removeAt id field (← integer "position" p)
  | kind, payload => throw (.unsupportedOperation kind payload)

/-- Reserves `size` consecutive values of a sequence, none below `floor`; answers the first.
A sequence starts at one. The size is taken as a sixty-four bit two's complement step, so a
size of `2 ^ 64 - 1` steps back by one. A sequence that has left the integers answers no
value, and the failed unit changes nothing. -/
def allocateBlock (name : String) (size : Nat) (floor : Int) : Access Int := do
  discard <| change fun t => t.createSequence name (.int 1)
  discard <| change fun t => t.updateSequence name (·.atLeast floor)
  let first ← match ← read fun t => t.sequence? name with
    | some (.int n) => pure n
    | some (.real _) => throw (.database (.notInteger "next_value"))
    | none => pure 0
  discard <| change fun t => t.updateSequence name (·.advance (wrap64 size))
  pure first

end Access

end ObjectPersistence.Datastore
