import ObjectPersistence.Engine.Flush

/-! # Making objects persistent

Persisting a transient object makes it new and claims it for the context; persistence then
cascades through the loaded relation fields that declare it, making the transient objects
they reach new as well. An object reached that another context manages stops the cascade.
Persisting an object that is still new inserts it at once, with the new objects it needs;
persisting a deleted object is an illegal transition. -/

namespace ObjectPersistence

namespace Engine

def makePersistent (id : ObjectId) (explicit : Bool) : Engine Unit := do
  claim id
  let tx := (← context).txActive
  let m ← core ((← manager id).transition .makePersistent)
  updateManager id fun _ =>
    { m with explicitlyPersisted := m.explicitlyPersisted || explicit, createdInTx := tx }

/-- Cascades persistence from an object; `visited` holds the objects already reached. A walk
enters only managed objects, each at most once, so the number of managed objects bounds its
depth. -/
def cascadePersist : Nat → ObjectId → List ObjectId → Engine (List ObjectId)
  | 0, _, visited => pure visited
  | fuel + 1, id, visited => do
    if visited.contains id then return visited
    let mut visited := visited ++ [id]
    let targets := ((← managed? id).map ManagedObject.cascadeTargets).getD []
    for t in targets do
      match ← lifecycle? t with
      | some .transient =>
        makePersistent t false
        visited ← cascadePersist fuel t visited
      | some s => if !s.isDeleted then visited ← cascadePersist fuel t visited
      | none => checkOwner t
    pure visited

/-- Makes an object persistent, cascading; a new object is inserted at once. -/
def persist (id : ObjectId) : Engine Unit := do
  match (← manager id).lifecycle with
  | .persistentNew => discard <| flushNew (some id)
  | .transient =>
    makePersistent id true
    discard <| cascadePersist ((← context).objects.length + 1) id []
  | s =>
    if s.isDeleted then throw (.core (.illegalTransition s .makePersistent))
    discard <| cascadePersist ((← context).objects.length + 1) id []

end Engine

end ObjectPersistence
