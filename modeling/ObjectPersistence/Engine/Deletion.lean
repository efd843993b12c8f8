import ObjectPersistence.Engine.Loading

/-! # Deleting objects

Deleting an object deletes, in turn, everything its dependent fields own: the target of a
dependent reference, the elements of a dependent collection, and the keys or values of a
dependent map that have an identity of their own. Objects the context does not manage yet
are bound from the datastore first; targets that are transient, already deleted, or not
stored anywhere are passed over. Each object is visited once per delete. -/

namespace ObjectPersistence

namespace Engine

def dependentFields (cls : ClassMeta) : List Nat :=
  (cls.fields.filter fun m =>
    let p := m.policy
    (m.dependent && m.isRelation) || p.dependentElements || p.dependentKeys || p.dependentValues).map
    (·.number)

/-- The objects a loaded object owns through its dependent fields, in field order. -/
def dependentTargets (m : ManagedObject) (fields : List Nat) : List ObjectId :=
  fields.flatMap fun f =>
    let p := (m.cls.member? f).map FieldMeta.policy
    match m.fieldData f with
    | some (.scalar v) => v.refId?.toList
    | some (.collection items) => items.filterMap Value.refId?
    | some (.map es) =>
      es.flatMap fun (k, v) =>
        (if p.any (·.dependentKeys) then k.refId?.toList else []) ++
        (if p.any (·.dependentValues) then v.refId?.toList else [])
    | none => []

def bindIfStored (id : ObjectId) : Engine Bool :=
  tryCatch (do ensureManaged id; pure true) fun e =>
    match e with
    | .objectNotFound _ => pure false
    | e => throw e

/-- Deletes one object that is not deleted yet: loads its dependent fields, moves it to its
deleted state, unbinds its wrappers and drops its queued changes. Answers the objects it owns
through those fields. -/
def deleteOne (id : ObjectId) : Engine (List ObjectId) := do
  let m ← manager id
  discard <| core (m.transition .delete)
  let fields := dependentFields m.cls
  ensureLoaded id fields
  let targets := dependentTargets (← manager id) fields
  discard <| transition id .delete
  updateManager id (·.unsetWrapperOwners)
  modifyContext fun c => { c with queue := c.queue.filter (·.owner != id) }
  pure targets

/-- Deletes an object and, recursively, what it owns; `visited` holds the objects this
delete already reached. -/
def deleteCascade : Nat → ObjectId → List ObjectId → Engine (List ObjectId)
  | 0, _, visited => pure visited
  | fuel + 1, id, visited => do
    if visited.contains id then return visited
    let mut visited := visited ++ [id]
    ensureManaged id
    if (← manager id).lifecycle.isDeleted then return visited
    for target in ← deleteOne id do
      match ← lifecycle? target with
      | some .transient => pure ()
      | some _ => visited ← deleteCascade fuel target visited
      | none =>
        if ← bindIfStored target then
          visited ← deleteCascade fuel target visited
    pure visited

/-- A bound on the objects one delete visits: each of them is managed, or stored in the tables
the context reads, when the delete begins. -/
def deleteBound (s : EngineState) : Nat :=
  s.ctx.objects.length + (s.ctx.backend.conn.view s.db).objectCount + 1

/-- Deletes an object and everything it owns. -/
def delete (id : ObjectId) : Engine Unit := do
  discard <| deleteCascade (deleteBound (← get)) id []

/-- Deletes an object a container owned; objects that are transient, already deleted or not
stored are left alone. -/
def deleteDependent (id : ObjectId) : Engine Unit := do
  match ← lifecycle? id with
  | some .transient => pure ()
  | some s => if s.isDeleted then pure () else delete id
  | none => if ← bindIfStored id then delete id

end Engine

end ObjectPersistence
