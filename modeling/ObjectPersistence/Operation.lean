import ObjectPersistence.Value.Basic

/-! # Container operations

A pending structural change to a container field: an addition or a removal, with a payload
that says what is added or removed. Such operations wait in a queue and are replayed against
the datastore at flush, in arrival order. -/

namespace ObjectPersistence

/-- Whether an operation adds or removes. -/
inductive OperationKind where
  | add
  | remove
  deriving DecidableEq, Repr, Inhabited

/-- What an operation adds or removes. -/
inductive Payload where
  /-- An element of a collection. -/
  | element (v : Value)
  /-- A position of a list, with the element there. -/
  | indexed (index : Nat) (v : Value)
  /-- A map entry. -/
  | entry (key value : Value)
  /-- A map key. -/
  | key (k : Value)
  deriving DecidableEq, Repr, Inhabited

def Payload.references : Payload → List ObjectId
  | .element v | .indexed _ v | .key v => v.refId?.toList
  | .entry k v => k.refId?.toList ++ v.refId?.toList

/-- One pending change to one field of one object. `opId` is a 128-bit tag that the wire
form carries; `allowCascade` says whether a removal may delete the removed object. -/
structure Operation where
  opId : Nat := 0
  kind : OperationKind
  owner : ObjectId
  field : Nat
  payload : Payload
  allowCascade : Bool := false
  deriving DecidableEq, Repr, Inhabited

namespace Operation

/-- An addition, which never cascades. -/
def add (owner : ObjectId) (field : Nat) (payload : Payload) : Operation :=
  { kind := .add, owner, field, payload }

/-- A removal. -/
def remove (owner : ObjectId) (field : Nat) (payload : Payload) (allowCascade : Bool) :
    Operation :=
  { kind := .remove, owner, field, payload, allowCascade }

/-- The name of the change an operation stands for. -/
def typeName (op : Operation) : String :=
  match op.kind, op.payload with
  | .add, .entry _ _ => "MapPut"
  | .add, .indexed _ _ => "ListInsert"
  | .add, _ => "CollectionAdd"
  | .remove, .key _ => "MapRemove"
  | .remove, .indexed _ _ => "ListRemoveAt"
  | .remove, _ => "CollectionRemove"

end Operation

end ObjectPersistence
