import ObjectPersistence.Engine.Flush
import ObjectPersistence.Wrapper.Mutation

/-! # Changing fields

A field is changed either wholesale or through the wrapper of a container field. Deleted
objects take no writes. A wrapper call runs against its object: the requests it makes are
carried out on the context (fields marked dirty, operations queued, relation changes
recorded), and once the call has succeeded the context repeats the recorded relation
changes on the inverse side, deletes the dependents the call let go, and flushes when the
change was made outside a transaction to an object that is already persistent.

The inverse side of a relation follows without recording changes of its own: a collection
gains or loses the back reference, a single reference is set to the owner or cleared if it
still names the owner. A wholesale change of a field with an inverse records the references
it dropped and those it added. -/

namespace ObjectPersistence

namespace Engine

/-- Work a wrapper call leaves for after it: dependents to delete, and whether to flush. -/
structure Effects where
  deletes : List ObjectId := []
  flush : Bool := false
  deriving DecidableEq, Repr, Inhabited

def checkWritable (id : ObjectId) : Engine Unit := do
  if let some s ← lifecycle? id then
    if s.isDeleted && (s.step .writeField).isNone then
      throw (.core (.illegalTransition s .writeField))

def recordRelation (owner : FieldOwner) (element : Value) (added : Bool) : Engine Unit :=
  match element.refId? with
  | some target => modifyContext fun c =>
      { c with relations := c.relations ++ [{ owner, target, added }] }
  | none => pure ()

/-- Carries out one request of a wrapper call. -/
def absorb (fx : Effects) : HostEvent → Engine Effects
  | .makeDirty o => do
    updateManager o.object (·.makeDirty o.field)
    pure fx
  | .enqueue op => do
    modifyContext fun c => { c with queue := c.queue ++ [op] }
    pure fx
  | .relationAdd o e => do
    recordRelation o e true
    pure fx
  | .relationRemove o e => do
    recordRelation o e false
    pure fx
  | .deleteDependent e => pure { fx with deletes := fx.deletes ++ e.refId?.toList }
  | .nontransactional o => do
    let persistent := (← managed? o.object).any (·.lifecycle.isPersistent)
    pure { fx with flush := fx.flush || persistent }

/-- Runs a call against the wrapper of a field, loading the field first. -/
def runWrapper {α} (id : ObjectId) (field : Nat) (manageRelations : Bool)
    (call : HostView → WrapperCall α) : Engine (α × Effects) := do
  checkWritable id
  ensureLoaded id [field]
  let m ← manager id
  let some w := m.wrapper? field | throw (.shapeMismatch "second-class field" "plain value")
  let c ← context
  let s := m.lifecycle
  let queued := c.config.queuedUpdates && c.txActive && s.isPersistent && !s.isNew && !s.isDeleted
  let (w', events, r) := (call { queued, manageRelations, transactionActive := c.txActive }).run w
  updateManager id (·.restoreWrapper field w')
  let fx ← events.foldlM absorb {}
  match r with
  | .ok a => pure (a, fx)
  | .error e => throw e

/-- Repeats one relation change on the inverse field of its target. -/
def applyInverse (ch : RelationChange) : Engine Unit := do
  let some owner ← managed? ch.owner.object | return
  let some inverse := (← core (owner.cls.member ch.owner.field)).mappedBy | return
  let some target ← managed? ch.target | return
  if target.lifecycle.isDeleted then return
  let im ← core (target.cls.member inverse)
  ensureLoaded ch.target [inverse]
  let back := Value.ref ch.owner.object
  if im.isCollection then
    discard <| runWrapper ch.target inverse false fun h => do
      if ch.added then
        if (← WrapperCall.wrapper).contains back then pure false else WrapperCall.add h back
      else WrapperCall.remove h back false
  else if !im.isSco then
    let current := (((← manager ch.target).fieldData inverse).bind FieldData.scalar?).getD .null
    let next := if ch.added then back else if current == back then .null else current
    if next != current then
      updateManager ch.target fun m => (m.install inverse (.value next)).makeDirty inverse

/-- Repeats the recorded relation changes on the inverse side, deletes released dependents,
and flushes if asked to. -/
def processEffects (fx : Effects) : Engine Unit := do
  let changes := (← context).relations
  modifyContext fun c => { c with relations := [] }
  if (← context).config.manageRelations then
    for ch in changes do
      applyInverse ch
  for id in fx.deletes do
    deleteDependent id
  if fx.flush then flush

/-- Replaces a field wholesale. A container field gets a fresh wrapper and its queued
changes are dropped. -/
def setField (id : ObjectId) (field : Nat) (data : FieldData) : Engine Unit := do
  checkWritable id
  let cls ← classOf id
  let fm ← core (cls.member field)
  if let .scalar v := data then
    if v.isNull && !fm.allowNulls then throw (.invalidElement (.nullField cls.name fm.name))
  let track := (← context).config.manageRelations && fm.mappedBy.isSome
  let previous ← if track then
      do ensureLoaded id [field]; pure ((← manager id).fieldData field)
    else pure none
  let s ← lift (makeSlot id fm (some data))
  let owner : FieldOwner := ⟨id, field⟩
  modifyContext fun c => { c with queue := c.queue.filter fun op => !(op.owner == id && op.field == field) }
  updateManager id fun m => (m.install field s).makeDirty field
  let persistent := (← manager id).lifecycle.isPersistent
  if let some prev := previous then
    let old := prev.references
    let new := data.references
    for t in old do
      if !new.contains t then recordRelation owner (.ref t) false
    for t in new do
      if !old.contains t then recordRelation owner (.ref t) true
  processEffects { flush := !(← context).txActive && persistent }

/-- Runs a call against the wrapper of a field and settles what it leaves. -/
def withWrapper {α} (id : ObjectId) (field : Nat) (call : HostView → WrapperCall α) : Engine α := do
  let (a, fx) ← runWrapper id field (← context).config.manageRelations call
  processEffects fx
  pure a

def collectionAdd (id : ObjectId) (field : Nat) (e : Value) : Engine Bool :=
  withWrapper id field (WrapperCall.add · e)

def collectionAddAll (id : ObjectId) (field : Nat) (es : List Value) : Engine Bool :=
  withWrapper id field (WrapperCall.addAll · es)

def collectionRemove (id : ObjectId) (field : Nat) (e : Value) : Engine Bool :=
  withWrapper id field (WrapperCall.remove · e true)

def collectionRemoveAll (id : ObjectId) (field : Nat) (es : List Value) : Engine Bool :=
  withWrapper id field (WrapperCall.removeAll · es)

def collectionRetainAll (id : ObjectId) (field : Nat) (keep : List Value) : Engine Bool :=
  withWrapper id field (WrapperCall.retainAll · keep)

def clearField (id : ObjectId) (field : Nat) : Engine Unit :=
  withWrapper id field WrapperCall.clear

def listInsert (id : ObjectId) (field index : Nat) (e : Value) : Engine Unit :=
  withWrapper id field (WrapperCall.insertAt · index e)

def listSet (id : ObjectId) (field index : Nat) (e : Value) : Engine Value :=
  withWrapper id field (WrapperCall.setAt · index e true)

def listRemoveAt (id : ObjectId) (field index : Nat) : Engine Value :=
  withWrapper id field (WrapperCall.removeAt · index)

def mapPut (id : ObjectId) (field : Nat) (k v : Value) : Engine (Option Value) :=
  withWrapper id field (WrapperCall.put · k v)

def mapRemove (id : ObjectId) (field : Nat) (k : Value) : Engine (Option Value) :=
  withWrapper id field (WrapperCall.removeKey · k)

def scalarSet (id : ObjectId) (field : Nat) (v : Value) : Engine Value :=
  withWrapper id field (WrapperCall.setScalar · v)

end Engine

end ObjectPersistence
