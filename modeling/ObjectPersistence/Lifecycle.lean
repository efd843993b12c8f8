/-! # Object lifecycle

Every managed object is in one lifecycle state, and events move it along a fixed table:
making it persistent, reading or writing a field, flushing, committing (keeping values or
going hollow), rolling back, deleting, detaching and attaching. An event the table does not
list for a state is refused, and the state stays as it was. -/

namespace ObjectPersistence

/-- Where an object stands with respect to the datastore. -/
inductive LifecycleState where
  | transient
  | persistentNew
  | persistentClean
  | persistentDirty
  | hollow
  | detached
  | persistentDeleted
  | persistentNewDeleted
  deriving DecidableEq, Repr, Inhabited

/-- What happens to an object. -/
inductive LifecycleEvent where
  | makePersistent
  | readField
  | writeField
  | flush
  | commit (retainValues : Bool)
  | rollback
  | delete
  | detach
  | attach
  deriving DecidableEq, Repr, Inhabited

namespace LifecycleState

/-- The state's name in lower case with hyphens. -/
def name : LifecycleState → String
  | transient => "transient"
  | persistentNew => "persistent-new"
  | persistentClean => "persistent-clean"
  | persistentDirty => "persistent-dirty"
  | hollow => "hollow"
  | detached => "detached"
  | persistentDeleted => "persistent-deleted"
  | persistentNewDeleted => "persistent-new-deleted"

def all : List LifecycleState :=
  [transient, persistentNew, persistentClean, persistentDirty, hollow, detached,
    persistentDeleted, persistentNewDeleted]

def ofName? (s : String) : Option LifecycleState := all.find? (·.name == s)

theorem ofName?_name (s : LifecycleState) : ofName? s.name = some s := by
  cases s <;> rfl

/-- The state's name as a diagnostic shows it. -/
def label : LifecycleState → String
  | transient => "Transient"
  | persistentNew => "PersistentNew"
  | persistentClean => "PersistentClean"
  | persistentDirty => "PersistentDirty"
  | hollow => "Hollow"
  | detached => "Detached"
  | persistentDeleted => "PersistentDeleted"
  | persistentNewDeleted => "PersistentNewDeleted"

def isPersistent : LifecycleState → Bool
  | persistentNew | persistentClean | persistentDirty | hollow
  | persistentDeleted | persistentNewDeleted => true
  | _ => false

def isNew : LifecycleState → Bool
  | persistentNew | persistentNewDeleted => true
  | _ => false

def isDirty : LifecycleState → Bool
  | persistentNew | persistentDirty | persistentDeleted | persistentNewDeleted => true
  | _ => false

def isDeleted : LifecycleState → Bool
  | persistentDeleted | persistentNewDeleted => true
  | _ => false

def isWaitingForFlush : LifecycleState → Bool
  | persistentNew | persistentDirty | persistentDeleted => true
  | _ => false

/-- The state an event leads to, or `none` when the event is illegal in this state. -/
def step : LifecycleState → LifecycleEvent → Option LifecycleState
  | transient, .makePersistent => some persistentNew
  | s@persistentNew, .makePersistent | s@persistentClean, .makePersistent
  | s@persistentDirty, .makePersistent | s@hollow, .makePersistent => some s
  | hollow, .readField => some persistentClean
  | s@transient, .readField | s@persistentNew, .readField
  | s@persistentClean, .readField | s@persistentDirty, .readField => some s
  | persistentClean, .writeField | hollow, .writeField => some persistentDirty
  | s@transient, .writeField | s@persistentNew, .writeField
  | s@persistentDirty, .writeField => some s
  | persistentNew, .flush | persistentDirty, .flush => some persistentClean
  | s@transient, .flush | s@persistentClean, .flush | s@hollow, .flush
  | s@persistentDeleted, .flush | s@persistentNewDeleted, .flush => some s
  | persistentNew, .commit r | persistentClean, .commit r | persistentDirty, .commit r =>
    some (if r then persistentClean else hollow)
  | s@hollow, .commit _ | s@transient, .commit _ => some s
  | persistentDeleted, .commit _ | persistentNewDeleted, .commit _ => some transient
  | persistentNew, .rollback | persistentNewDeleted, .rollback => some transient
  | persistentClean, .rollback | persistentDirty, .rollback
  | persistentDeleted, .rollback | hollow, .rollback => some hollow
  | s@transient, .rollback => some s
  | persistentNew, .delete => some persistentNewDeleted
  | persistentClean, .delete | persistentDirty, .delete | hollow, .delete =>
    some persistentDeleted
  | s@persistentDeleted, .delete | s@persistentNewDeleted, .delete => some s
  | persistentNew, .detach | persistentClean, .detach | persistentDirty, .detach
  | hollow, .detach => some detached
  | detached, .attach => some persistentClean
  | _, _ => none

end LifecycleState

namespace LifecycleEvent

/-- The event's name in lower case with hyphens; a commit names what happens to the values. -/
def name : LifecycleEvent → String
  | makePersistent => "make-persistent"
  | readField => "read-field"
  | writeField => "write-field"
  | flush => "flush"
  | commit r => if r then "commit-retain" else "commit-hollow"
  | rollback => "rollback"
  | delete => "delete"
  | detach => "detach"
  | attach => "attach"

def ofName? (s : String) : Option LifecycleEvent :=
  [makePersistent, readField, writeField, flush, commit true, commit false, rollback, delete,
    detach, attach].find? (·.name == s)

theorem ofName?_name (e : LifecycleEvent) : ofName? e.name = some e := by
  cases e with
  | commit r => cases r <;> rfl
  | _ => rfl

/-- The event as a diagnostic shows it. -/
def label : LifecycleEvent → String
  | makePersistent => "MakePersistent"
  | readField => "ReadField"
  | writeField => "WriteField"
  | flush => "Flush"
  | commit r => "Commit \x7b retain_values: " ++ (if r then "true" else "false") ++ " \x7d"
  | rollback => "Rollback"
  | delete => "Delete"
  | detach => "Detach"
  | attach => "Attach"

end LifecycleEvent

end ObjectPersistence
