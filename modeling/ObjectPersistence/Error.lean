import ObjectPersistence.Lifecycle
import ObjectPersistence.Operation
import ObjectPersistence.Config
import ObjectPersistence.Value.Diagnostic

/-! # Errors

Every failure is a cause, not a text. Three layers fail in their own ways: the object model
(bad lifecycle transitions, unknown fields), the datastore (refusals of the database engine,
missing objects, version conflicts, injected faults) and the execution context (bad
elements, indices out of range, foreign or unmanaged objects, unbound wrappers). Each cause
has one diagnostic text, given here. -/

namespace ObjectPersistence

/-- Failures of the object model. -/
inductive CoreError where
  | serialization (msg : String)
  | illegalTransition (state : LifecycleState) (event : LifecycleEvent)
  | unknownField (cls : String) (field : Nat)
  | invalidData (msg : String)
  deriving DecidableEq, Repr

def CoreError.message : CoreError → String
  | .serialization msg => "serialization error: " ++ msg
  | .illegalTransition s e =>
    "illegal lifecycle transition: " ++ e.label ++ " from " ++ s.label
  | .unknownField cls field => "unknown field " ++ toString field ++ " on class " ++ cls
  | .invalidData msg => "invalid data: " ++ msg

/-- Refusals of the database engine itself. -/
inductive DatabaseRefusal where
  /-- Another connection holds the write lock, or this one reads a stale snapshot. -/
  | locked
  /-- A row names an object that is not stored. -/
  | foreignKey
  /-- An integer was read from a column that holds a double. -/
  | notInteger (column : String)
  deriving DecidableEq, Repr

def DatabaseRefusal.message : DatabaseRefusal → String
  | .locked => "database is locked"
  | .foreignKey => "FOREIGN KEY constraint failed"
  | .notInteger column => "Invalid column type Real at index: 0, name: " ++ column

/-- Failures of the datastore. -/
inductive StorageError where
  | database (r : DatabaseRefusal)
  /-- A stored map entry has no key. -/
  | keylessEntry (field : Nat)
  | notFound (id : ObjectId)
  | duplicateObject (id : ObjectId)
  | notContainer (field cls : String)
  | unsupportedOperation (kind : OperationKind) (payload : Payload)
  | optimisticConflict (id : ObjectId) (expected found : Option Int)
  /-- A sequence ran out of values and has no datastore to reserve more from. -/
  | noSequenceSource (name : String)
  | injected (what : String)
  | core (e : CoreError)
  deriving DecidableEq, Repr

def versionText : Option Int → String
  | some v => "Some(" ++ toString v ++ ")"
  | none => "None"

def OperationKind.label : OperationKind → String
  | .add => "ElementAdd"
  | .remove => "ElementRemove"

def Payload.diagnostic : Payload → String
  | .element v => "Element(" ++ v.diagnostic ++ ")"
  | .indexed i v =>
    "Indexed \x7b index: " ++ toString i ++ ", element: " ++ v.diagnostic ++ " \x7d"
  | .entry k v => "Entry \x7b key: " ++ k.diagnostic ++ ", value: " ++ v.diagnostic ++ " \x7d"
  | .key k => "Key(" ++ k.diagnostic ++ ")"

/-- The diagnostic text of a datastore failure. -/
def StorageError.message : StorageError → String
  | .database r => "sqlite error: " ++ r.message
  | .keylessEntry field => "serialization error: map entry without key in field " ++ toString field
  | .notFound id => "not found: " ++ id.toUuidString
  | .duplicateObject id => "constraint violation: object " ++ id.toUuidString ++ " already exists"
  | .notContainer field cls =>
    "constraint violation: field " ++ field ++ " of " ++ cls ++ " is not a container"
  | .unsupportedOperation k p =>
    "constraint violation: unsupported operation " ++ k.label ++ " with " ++ p.diagnostic
  | .optimisticConflict id e f =>
    "optimistic conflict on " ++ id.toUuidString ++ ": expected version " ++ versionText e ++
      ", found " ++ versionText f
  | .noSequenceSource name => "unsupported: sequence " ++ name ++ " needs a datastore connection"
  | .injected what => "injected failure: " ++ what
  | .core e => "core error: " ++ e.message

/-- What is wrong with an element given to a container or a field. -/
inductive ElementFault where
  | nullElement
  | nullKey
  /-- A null for a field that refuses nulls. -/
  | nullField (cls field : String)
  deriving DecidableEq, Repr

def ElementFault.message : ElementFault → String
  | .nullElement => "null elements are not allowed in this container"
  | .nullKey => "map keys cannot be null"
  | .nullField cls field => cls ++ "." ++ field ++ " cannot be null"

/-- Failures of an execution context. -/
inductive EngineError where
  | storage (e : StorageError)
  | core (e : CoreError)
  | invalidElement (f : ElementFault)
  | indexOutOfBounds (index len : Nat)
  | crossContext (id : ObjectId)
  | unbound
  | objectNotFound (id : ObjectId)
  | notManaged (id : ObjectId)
  | unknownClass (name : String)
  | shapeMismatch (expected found : String)
  /-- A generated value does not fit the declared type of `member`. -/
  | valueConversion (member : String) (value : Value)
  | invalidProperty (e : PropertyError)
  | noActiveTransaction
  deriving DecidableEq, Repr

/-- The diagnostic text of a context failure. -/
def EngineError.message : EngineError → String
  | .storage e => "storage error: " ++ e.message
  | .core e => "core error: " ++ e.message
  | .invalidElement f => "invalid element: " ++ f.message
  | .indexOutOfBounds i n => "index " ++ toString i ++ " out of bounds for length " ++ toString n
  | .crossContext id => "object " ++ id.toUuidString ++ " is managed by another execution context"
  | .unbound => "wrapper is not bound to an owning object"
  | .objectNotFound id => "object not found: " ++ id.toUuidString
  | .notManaged id => "object not managed by this context: " ++ id.toUuidString
  | .unknownClass name => "unknown class: " ++ name
  | .shapeMismatch e f => "shape mismatch: expected " ++ e ++ ", found " ++ f
  | .valueConversion member v =>
    "generated value " ++ v.diagnostic ++ " for " ++ member ++ " cannot be converted to the field type"
  | .invalidProperty e => "invalid property: " ++ e.message
  | .noActiveTransaction => "no active transaction"

end ObjectPersistence
