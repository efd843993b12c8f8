import ObjectPersistence.Engine.Transaction
import ObjectPersistence.Engine.Mutation

/-! # Detached copies

A detached copy of an object holds its loaded fields, and with it every managed object its
loaded relation fields reach, in the order the walk met them. Detaching flushes pending
work first, then hands the copy out and stops managing the objects in it. Attaching merges
a copy back in order: an object the datastore does not know comes in new, with the copy's
fields; any other is bound if need be and brought in line field by field, through the
wrapper for container fields. -/

namespace ObjectPersistence

/-- The copy of one object. -/
structure DetachedObject where
  id : ObjectId
  cls : String
  version : Option Int
  /-- Loaded fields only. -/
  fields : List (Nat × FieldData)
  deriving DecidableEq, Repr

def DetachedObject.field? (o : DetachedObject) (n : Nat) : Option FieldData :=
  (o.fields.find? (·.1 == n)).map (·.2)

/-- Sets a field of the copy, appending it when the copy lacks it. -/
def DetachedObject.setField (o : DetachedObject) (n : Nat) (d : FieldData) : DetachedObject :=
  if o.fields.any (·.1 == n) then { o with fields := o.fields.map fun (k, x) => (k, if k == n then d else x) }
  else { o with fields := o.fields ++ [(n, d)] }

def DetachedObject.removeField (o : DetachedObject) (n : Nat) : DetachedObject :=
  { o with fields := o.fields.filter (·.1 != n) }

/-- A detached object with the objects it references. -/
structure DetachedGraph where
  root : ObjectId
  objects : List DetachedObject := []
  deriving DecidableEq, Repr

namespace DetachedGraph

def contains (g : DetachedGraph) (id : ObjectId) : Bool := g.objects.any (·.id == id)

def modify (g : DetachedGraph) (id : ObjectId) (f : DetachedObject → DetachedObject) : DetachedGraph :=
  { g with objects := g.objects.map fun o => if o.id == id then f o else o }

end DetachedGraph

namespace Engine

/-- Adds an object and what its loaded relation fields reach to a copy. -/
def detachInto : Nat → ObjectId → DetachedGraph → Engine DetachedGraph
  | 0, _, g => pure g
  | fuel + 1, id, g => do
    if g.objects.any (·.id == id) then return g
    let m ← manager id
    if m.lifecycle.isDeleted then return g
    let mut g := { g with objects := g.objects ++
      [{ id, cls := m.cls.name, version := m.version, fields := m.loadedData }] }
    for t in m.relationReferences do
      if (← managed? t).isSome then
        g ← detachInto fuel t g
    pure g

/-- A copy of an object and what it reaches; the objects copied stay managed. A walk copies
only managed objects, each at most once, so the number of managed objects bounds its depth. -/
def detachCopy (id : ObjectId) : Engine DetachedGraph := do
  detachInto ((← context).objects.length + 1) id { root := id }

/-- Flushes, copies an object and what it reaches, and stops managing them. -/
def detach (id : ObjectId) : Engine DetachedGraph := do
  if (← context).objects.any (·.lifecycle.isWaitingForFlush) then flush
  let g ← detachCopy id
  for o in g.objects do
    let some m ← managed? o.id | continue
    if m.lifecycle == .transient then continue
    discard <| transition o.id .detach
    disconnect o.id
  pure g

/-- Merges one detached object. -/
def attachObject (o : DetachedObject) : Engine Unit := do
  if (← managed? o.id).isNone then
    match ← storedHeader o.id with
    | some h => bindHollow o.id (← findClass h.cls) h.version
    | none =>
      let cls ← findClass o.cls
      let mut m ← acquireManager o.id cls .transient
      for fm in cls.fields do
        m := m.install fm.number (← lift (makeSlot o.id fm (o.field? fm.number)))
      adopt m
      makePersistent o.id true
      return
  let m ← manager o.id
  if m.lifecycle.isDeleted then return
  let cls := m.cls
  ensureLoaded o.id (o.fields.map (·.1))
  if cls.versioned && o.version.isSome then
    updateManager o.id fun m => { m with version := o.version }
  for (field, data) in o.fields do
    if (← core (cls.member field)).isSco then
      discard <| withWrapper o.id field (WrapperCall.attach · data)
    else if (← manager o.id).fieldData field != some data then
      setField o.id field data

/-- Merges a detached copy; answers its root. -/
def attachCopy (g : DetachedGraph) : Engine ObjectId := do
  for o in g.objects do
    checkOwner o.id
  for o in g.objects do
    attachObject o
  pure g.root

end Engine

end ObjectPersistence
