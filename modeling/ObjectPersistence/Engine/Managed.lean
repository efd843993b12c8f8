import ObjectPersistence.Wrapper.Basic
import ObjectPersistence.Schema.Class
import ObjectPersistence.FieldBitmap
import ObjectPersistence.Lifecycle

/-! # Managed objects

What a unit of work keeps for each object it manages: the class, the lifecycle state, which
fields are loaded and which are dirty, the version last seen in the datastore, and one slot
per field holding nothing yet, a plain value, or the wrapper of a container field. A
manager that was disconnected ignores writes until it is bound again. Spent managers go to
a bounded free list and are reused for later objects. -/

namespace ObjectPersistence

/-- The content of one field of a managed object. -/
inductive Slot where
  | unloaded
  | value (v : Value)
  | wrapper (w : Wrapper)
  deriving DecidableEq, Repr, Inhabited

/-- The state kept for one managed object. -/
structure ManagedObject where
  id : ObjectId
  cls : ClassMeta
  lifecycle : LifecycleState
  loaded : FieldBitmap
  dirty : FieldBitmap
  version : Option Int := none
  slots : List Slot
  bound : Bool := true
  /-- Made persistent by an explicit call rather than by cascade. -/
  explicitlyPersisted : Bool := false
  /-- Made persistent inside the current transaction. -/
  createdInTx : Bool := false
  deriving Repr, Inhabited

namespace ManagedObject

/-- A fresh manager: nothing loaded, nothing dirty. -/
def create (id : ObjectId) (cls : ClassMeta) (lifecycle : LifecycleState) : ManagedObject :=
  { id, cls, lifecycle, loaded := .empty cls.fieldCount, dirty := .empty cls.fieldCount,
    slots := List.replicate cls.fieldCount .unloaded }

def transition (m : ManagedObject) (e : LifecycleEvent) : Except CoreError ManagedObject :=
  match m.lifecycle.step e with
  | some s => .ok { m with lifecycle := s }
  | none => .error (.illegalTransition m.lifecycle e)

/-- Marks a field dirty. A disconnected manager, or one whose state takes no writes, is left
as it is. -/
def makeDirty (m : ManagedObject) (field : Nat) : ManagedObject :=
  if !m.bound then m
  else
    match m.lifecycle.step .writeField with
    | some s => { m with lifecycle := s, dirty := (m.dirty.set field).1 }
    | none => m

def clearDirty (m : ManagedObject) : ManagedObject := { m with dirty := m.dirty.clearAll }

def slot? (m : ManagedObject) (field : Nat) : Option Slot := m.slots[field]?

def install (m : ManagedObject) (field : Nat) (s : Slot) : ManagedObject :=
  if field < m.slots.length then
    { m with slots := m.slots.set field s, loaded := (m.loaded.set field).1 }
  else m

def wrapper? (m : ManagedObject) (field : Nat) : Option Wrapper :=
  match m.slot? field with
  | some (.wrapper w) => some w
  | _ => none

def restoreWrapper (m : ManagedObject) (field : Nat) (w : Wrapper) : ManagedObject :=
  { m with slots := m.slots.set field (.wrapper w) }

def fieldData (m : ManagedObject) (field : Nat) : Option FieldData :=
  if !m.loaded.get field then none
  else
    match m.slot? field with
    | some (.value v) => some (.scalar v)
    | some (.wrapper w) => some w.detachCopy
    | _ => none

def loadedData (m : ManagedObject) : List (Nat × FieldData) :=
  m.loaded.setFields.filterMap fun f => (m.fieldData f).map (f, ·)

def referencesIn (m : ManagedObject) (fields : List Nat) : List ObjectId :=
  fields.flatMap fun f => ((m.fieldData f).map FieldData.references).getD []

def cascadeTargets (m : ManagedObject) : List ObjectId :=
  m.referencesIn ((m.cls.fields.filter fun f => f.isRelation && f.cascadePersist).map (·.number))

def relationReferences (m : ManagedObject) : List ObjectId :=
  (m.loadedData.filter fun (f, _) => (m.cls.member? f).any FieldMeta.isRelation).flatMap
    fun (_, d) => d.references

def unsetWrapperOwners (m : ManagedObject) : ManagedObject :=
  { m with slots := m.slots.map fun
      | .wrapper w => .wrapper w.unsetOwner
      | s => s }

def unloadAll (m : ManagedObject) : ManagedObject :=
  { m with slots := m.slots.map fun _ => .unloaded, loaded := m.loaded.clearAll,
           dirty := m.dirty.clearAll }

def disconnect (m : ManagedObject) : ManagedObject :=
  { m.unloadAll with bound := false, explicitlyPersisted := false, createdInTx := false }

/-- Binds a spent manager to another object: every piece of state is set again, and the
slots are emptied and made up again to the class's field count. -/
def rebind (m : ManagedObject) (id : ObjectId) (cls : ClassMeta) (lifecycle : LifecycleState) :
    ManagedObject :=
  { m with id, cls, lifecycle, loaded := .empty cls.fieldCount, dirty := .empty cls.fieldCount,
           version := none, slots := List.replicate cls.fieldCount .unloaded, bound := true,
           explicitlyPersisted := false, createdInTx := false }

theorem rebind_eq_create (m : ManagedObject) (id : ObjectId) (cls : ClassMeta)
    (lifecycle : LifecycleState) : m.rebind id cls lifecycle = create id cls lifecycle := rfl

def unownedFields (m : ManagedObject) : List Nat :=
  (List.range m.slots.length).filter fun f =>
    match m.slot? f with
    | some (.wrapper w) => w.owner.isNone
    | _ => false

end ManagedObject

/-- The free list of spent managers, most recently given back first, how many it may hold,
and how many times one was reused. -/
structure ManagerPool where
  free : List ManagedObject := []
  capacity : Nat
  reused : Nat := 0
  deriving Repr, Inhabited

namespace ManagerPool

/-- Takes a manager for an object: the most recently given back one, bound afresh, or a new
one when the free list is empty. -/
def acquire (p : ManagerPool) (id : ObjectId) (cls : ClassMeta) (lifecycle : LifecycleState) :
    ManagedObject × ManagerPool :=
  match p.free with
  | m :: rest => (m.rebind id cls lifecycle, { p with free := rest, reused := p.reused + 1 })
  | [] => (.create id cls lifecycle, p)

def release (p : ManagerPool) (m : ManagedObject) : ManagerPool :=
  if p.free.length < p.capacity then { p with free := m.disconnect :: p.free } else p

theorem acquire_capacity (p : ManagerPool) (id : ObjectId) (cls : ClassMeta)
    (lifecycle : LifecycleState) : (p.acquire id cls lifecycle).2.capacity = p.capacity := by
  unfold acquire
  split <;> rfl

theorem release_capacity (p : ManagerPool) (m : ManagedObject) :
    (p.release m).capacity = p.capacity := by
  unfold release
  split <;> rfl

theorem acquire_free_le (p : ManagerPool) (id : ObjectId) (cls : ClassMeta)
    (lifecycle : LifecycleState) (h : p.free.length ≤ p.capacity) :
    (p.acquire id cls lifecycle).2.free.length ≤ (p.acquire id cls lifecycle).2.capacity := by
  unfold acquire
  split
  · rename_i m rest hfree
    have hlen : rest.length + 1 ≤ p.capacity := by simpa [hfree] using h
    show rest.length ≤ p.capacity
    omega
  · exact h

theorem release_free_le (p : ManagerPool) (m : ManagedObject) (h : p.free.length ≤ p.capacity) :
    (p.release m).free.length ≤ (p.release m).capacity := by
  unfold release
  split
  · show p.free.length + 1 ≤ p.capacity
    omega
  · exact h

theorem acquire_fst (p : ManagerPool) (id : ObjectId) (cls : ClassMeta)
    (lifecycle : LifecycleState) : (p.acquire id cls lifecycle).1 = .create id cls lifecycle := by
  unfold acquire
  split
  · rename_i m _ _
    exact m.rebind_eq_create id cls lifecycle
  · rfl

end ManagerPool

end ObjectPersistence
