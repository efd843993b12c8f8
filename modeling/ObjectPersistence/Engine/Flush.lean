import ObjectPersistence.Engine.Deletion

/-! # Flushing

A flush writes the pending work of a context to its datastore in four phases: new objects
are inserted, referenced new objects first; queued container changes are applied in the
order they were made; dirty objects are updated, leaving out the fields whose changes were
queued; deleted objects are removed. A failure stops the flush and leaves the rest of the
work pending, so a later flush resumes it.

An inserted object first gets a generated value for each still-null field that declares a
strategy, converted to the field's type. A versioned object is inserted at version 1, and
each update moves the version on by one from the version the datastore must still hold. A
queued removal that may cascade deletes the dependent element it removed, unless the
container holds it again. -/

namespace ObjectPersistence

namespace Engine

def pendingIds (objects : List ManagedObject) : List ObjectId :=
  (objects.filter (·.lifecycle == .persistentNew)).map (·.id)

def relationTargets (objects : List ManagedObject) (id : ObjectId) : List ObjectId :=
  match objects.find? (fun (m : ManagedObject) => m.id == id) with
  | some m => m.referencesIn m.cls.relationFields
  | none => []

/-- The new objects to insert, each after the new objects it references. -/
def insertOrder (objects : List ManagedObject) (pending : List ObjectId) :
    Nat → ObjectId → List ObjectId × List ObjectId → List ObjectId × List ObjectId
  | 0, _, acc => acc
  | fuel + 1, id, (visited, order) =>
    if !pending.contains id || visited.contains id then (visited, order)
    else
      let visited := visited ++ [id]
      let (visited, order) := (relationTargets objects id).foldl
        (fun acc t => insertOrder objects pending fuel t acc) (visited, order)
      (visited, order ++ [id])

/-- The order in which new objects are inserted: with `only`, that object and the new objects
it reaches through new objects; otherwise every new object. A walk from one start visits each
new object at most once, so the number of new objects bounds its depth. -/
def insertionOrder (objects : List ManagedObject) (only : Option ObjectId) : List ObjectId :=
  let pending := pendingIds objects
  let starts := match only with
    | some id => [id]
    | none => (objects.map ManagedObject.id).filter pending.contains
  (starts.foldl (fun acc id => insertOrder objects pending (pending.length + 1) id acc)
    ([], [])).2

/-- Gives each still-null field that declares a strategy its generated value. -/
def generateValues (id : ObjectId) (cls : ClassMeta) : Engine Unit := do
  for fm in cls.fields do
    let some strategy := fm.valueStrategy | continue
    if (← manager id).fieldData fm.number != some FieldData.empty then continue
    let member := cls.name ++ "." ++ fm.name
    let gens := (← get).runtime.generators
    let (r, gens) ← gens.next member strategy (some reserve)
    modifyRuntime fun rt => { rt with generators := gens }
    let generated ← match r with
      | .ok v => pure v
      | .error e => throw (.storage e)
    match generated.convert fm.valueType with
    | some v => updateManager id (·.install fm.number (.value v))
    | none => throw (.valueConversion member generated)

/-- Inserts one new object with all its fields. -/
def insertObject (id : ObjectId) : Engine Unit := do
  let cls ← classOf id
  ensureLoaded id (List.range cls.fieldCount)
  generateValues id cls
  let version : Option Int := if cls.versioned then some 1 else none
  storeNew { id, cls := cls.name, version, fields := (← manager id).loadedData }
  updateManager id fun m => { m.clearDirty with version }
  discard <| transition id .flush

def flushNew (only : Option ObjectId) : Engine Nat := do
  let objects := (← context).objects
  if (pendingIds objects).isEmpty then return 0
  let order := insertionOrder objects only
  for id in order do
    insertObject id
  pure order.length

def removedDependent (policy : ContainerPolicy) : Payload → Option ObjectId
  | .element e => if policy.dependentElements then e.refId? else none
  | .indexed _ e => if policy.dependentElements then e.refId? else none
  | .key k => if policy.dependentKeys then k.refId? else none
  | .entry _ _ => none

/-- Applies the queued changes in order; changes to objects no longer managed are dropped. -/
def applyQueue : Nat → Nat → Engine Nat
  | 0, applied => pure applied
  | fuel + 1, applied => do
    let some op := (← context).queue.head? | return applied
    let dropFront := modifyContext fun c => { c with queue := c.queue.drop 1 }
    let some m ← managed? op.owner | do dropFront; applyQueue fuel applied
    storeApply op m.cls
    dropFront
    if op.kind == .remove && op.allowCascade then
      let policy := (← core (m.cls.member op.field)).policy
      if let some target := removedDependent policy op.payload then
        let held := ((← manager op.owner).wrapper? op.field).any (·.contains (.ref target))
        if !held then deleteDependent target
    applyQueue fuel (applied + 1)

/-- The version the datastore must still hold for a versioned object. -/
def knownVersion (id : ObjectId) (cls : ClassMeta) : Engine (Option Int) := do
  if !cls.versioned then return none
  if let some v := (← manager id).version then return some v
  match ← storedHeader id with
  | none => throw (.objectNotFound id)
  | some h =>
    updateManager id fun m => { m with version := h.version }
    pure h.version

/-- Updates the dirty objects, leaving out fields whose changes were queued. -/
def flushUpdates (queued : List FieldOwner) : Engine Nat := do
  let dirty := ((← context).objects.filter (·.lifecycle == .persistentDirty)).map (·.id)
  for id in dirty do
    let cls ← classOf id
    let expected ← knownVersion id cls
    let m ← manager id
    let fields := (m.dirty.setFields.filter fun f => !queued.contains ⟨id, f⟩).filterMap fun f =>
      (m.fieldData f).map (f, ·)
    -- the increment wraps around as a sixty-four bit sum does
    let version : Option Int :=
      if cls.versioned then some (Datastore.wrap64 (expected.getD 0 + 1)) else none
    storeUpdate { id, cls := cls.name, version, fields } expected
    updateManager id fun m => { m.clearDirty with version }
    discard <| transition id .flush
  pure dirty.length

/-- Removes the deleted objects from the datastore and stops managing them; new objects
deleted before their insert never reach it. -/
def flushDeletes : Engine Nat := do
  let doomed := ((← context).objects.filter (·.lifecycle.isDeleted)).map fun m => (m.id, m.lifecycle)
  let mut deleted := 0
  for (id, state) in doomed do
    if state == .persistentDeleted then
      let cls ← classOf id
      let version ← knownVersion id cls
      storeDelete id version
      deleted := deleted + 1
    disconnect id
  pure deleted

/-- Writes every pending change: inserts, queued changes, updates, then deletes. -/
def flush : Engine Unit := do
  discard <| flushNew none
  let queued := (← context).queue.map fun op => (⟨op.owner, op.field⟩ : FieldOwner)
  discard <| applyQueue (← context).queue.length 0
  discard <| flushUpdates queued
  discard flushDeletes

end Engine

end ObjectPersistence
