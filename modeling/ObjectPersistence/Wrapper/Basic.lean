import ObjectPersistence.Wrapper.Container
import ObjectPersistence.Value.FieldData
import ObjectPersistence.Schema.Field
import ObjectPersistence.Error

/-! # Second-class wrappers

A container field of a managed object is held by a wrapper: the plain content, the policy
of its field, and the (object, field) pair that owns it, if it is still bound. A wrapper
turns each change into requests to its owner: mark the field dirty, queue an operation,
record a relation change, delete a dependent object, or report a change made outside a
transaction. The owner answers three questions during a call: whether changes are queued,
whether relations are managed, and whether a transaction is active. -/

namespace ObjectPersistence

/-- The field of an object that a wrapper belongs to. -/
structure FieldOwner where
  object : ObjectId
  field : Nat
  deriving DecidableEq, Repr, Inhabited

/-- A request a wrapper makes of its owner. -/
inductive HostEvent where
  | makeDirty (owner : FieldOwner)
  | enqueue (op : Operation)
  | relationAdd (owner : FieldOwner) (element : Value)
  | relationRemove (owner : FieldOwner) (element : Value)
  | deleteDependent (element : Value)
  | nontransactional (owner : FieldOwner)
  deriving DecidableEq, Repr

/-- The owner's answers during one call. -/
structure HostView where
  queued : Bool
  manageRelations : Bool
  transactionActive : Bool
  deriving DecidableEq, Repr

/-- A wrapper's content. -/
inductive Content where
  | collection (kind : CollectionKind) (items : List Value)
  | map (sorted : Bool) (entries : List (Value × Value))
  | scalar (v : Value)
  deriving DecidableEq, Repr, Inhabited

/-- A wrapper: owner, policy and content. -/
structure Wrapper where
  owner : Option FieldOwner
  policy : ContainerPolicy
  content : Content
  deriving DecidableEq, Repr, Inhabited

namespace Wrapper

/-- The shape of the wrapper's container. -/
def shape (w : Wrapper) : ContainerShape :=
  match w.content with
  | .collection .set _ => .set
  | .collection .sortedSet _ => .sortedSet
  | .collection .list _ => .list
  | .collection .orderedList _ => .orderedList
  | .map false _ => .map
  | .map true _ => .sortedMap
  | .scalar _ => .scalarMutable

/-- A plain copy of the content. -/
def detachCopy (w : Wrapper) : FieldData :=
  match w.content with
  | .collection _ items => .collection items
  | .map _ es => .map es
  | .scalar v => .scalar v

def references (w : Wrapper) : List ObjectId := w.detachCopy.references

def size (w : Wrapper) : Nat :=
  match w.content with
  | .collection _ items => items.length
  | .map _ es => es.length
  | .scalar v => if v.isNull then 0 else 1

def contains (w : Wrapper) (e : Value) : Bool :=
  match w.content with
  | .collection _ items => items.contains e
  | .map _ es => (Container.lookup es e).isSome
  | .scalar v => v == e

def unsetOwner (w : Wrapper) : Wrapper := { w with owner := none }

/-- Wraps field data in the container of a shape. A null stands for an empty container. -/
def wrap (shape : ContainerShape) (owner : FieldOwner) (policy : ContainerPolicy)
    (data : Option FieldData) : Except EngineError Wrapper :=
  let collection (kind : CollectionKind) : Except EngineError Wrapper :=
    match data with
    | none | some (.scalar .null) => .ok ⟨some owner, policy, .collection kind []⟩
    | some (.collection items) => .ok ⟨some owner, policy, .collection kind (kind.ofValues items)⟩
    | some _ => .error (.shapeMismatch "collection" "non-collection data")
  let map (sorted : Bool) : Except EngineError Wrapper :=
    match data with
    | none | some (.scalar .null) => .ok ⟨some owner, policy, .map sorted []⟩
    | some (.map es) => .ok ⟨some owner, policy, .map sorted (Container.ofEntries sorted es)⟩
    | some _ => .error (.shapeMismatch "map" "non-map data")
  match shape with
  | .set => collection .set
  | .sortedSet => collection .sortedSet
  | .list => collection .list
  | .orderedList => collection .orderedList
  | .map => map false
  | .sortedMap => map true
  | .scalarMutable =>
    match data with
    | none => .ok ⟨some owner, policy, .scalar .null⟩
    | some (.scalar v) => .ok ⟨some owner, policy, .scalar v⟩
    | some _ => .error (.shapeMismatch "scalar" "container data")

end Wrapper

end ObjectPersistence
