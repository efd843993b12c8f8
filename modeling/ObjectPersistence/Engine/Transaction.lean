import ObjectPersistence.Engine.Persistence

/-! # Transactions and reachability

An object reaches the objects its loaded cascade-persist relation fields reference, and so
on; deleted objects and objects the context does not manage are left out. A walk loads
the relation fields of each object enlisted in the open transaction before following them.

Committing first, with reachability at commit on, returns to transient every object that
was only persisted by cascade and that nothing persistent reaches any more; then it
flushes, commits the datastore, and moves every persistent object on: hollow, without its
values, unless values are retained. Rolling back drops the queued and recorded changes,
lets go of the objects made persistent in the transaction, and makes the others hollow.
Closing rolls back an open transaction and lets go of every object. -/

namespace ObjectPersistence

namespace Engine

/-- Adds to `reachable` everything an object reaches, itself included. -/
def reach : Nat → ObjectId → List ObjectId → Engine (List ObjectId)
  | 0, _, reachable => pure reachable
  | fuel + 1, id, reachable => do
    let some s ← lifecycle? id | return reachable
    if s.isDeleted || reachable.contains id then return reachable
    let enlisted := (← context).txActive &&
      (s == .persistentNew || s == .persistentClean || s == .persistentDirty)
    if enlisted then loadRelations id
    let mut reachable := reachable ++ [id]
    let targets := ((← managed? id).map ManagedObject.cascadeTargets).getD []
    for t in targets do
      reachable ← reach fuel t reachable
    pure reachable

/-- Everything an object reaches, itself included. A walk adds each managed object at most
once, so the number of managed objects bounds its depth. -/
def reachableFrom (id : ObjectId) : Engine (List ObjectId) := do
  reach ((← context).objects.length + 1) id []

/-- Opens a transaction, unless one is open. -/
def begin : Engine Unit := do
  if (← context).txActive then return
  withConnection fun c db => (c.begin, db)
  modifyContext fun c => { c with txActive := true }

def releaseOrphan (id : ObjectId) : Engine Unit := do
  discard <| transition id .rollback
  updateManager id fun m => { m.clearDirty with createdInTx := false }
  let s ← get
  set { s with runtime := s.runtime.release id s.ctx.id }

/-- Returns to transient the objects persisted only by cascade that no root reaches; roots
are the objects persisted explicitly and the clean and dirty ones. -/
def releaseUnreachable : Engine Unit := do
  let roots := ((← context).objects.filter fun m =>
    m.explicitlyPersisted || m.lifecycle == .persistentClean || m.lifecycle == .persistentDirty).map
    (·.id)
  let mut reachable := []
  for r in roots do
    reachable ← reach ((← context).objects.length + 1) r reachable
  let orphans := ((← context).objects.filter fun m =>
    m.lifecycle == .persistentNew && !m.explicitlyPersisted && !reachable.contains m.id).map (·.id)
  for id in orphans do
    releaseOrphan id

/-- Commits the open transaction. -/
def commit : Engine Unit := do
  if !(← context).txActive then throw .noActiveTransaction
  if (← context).config.reachabilityAtCommit then releaseUnreachable
  flush
  withConnection fun c db => c.commit db
  modifyContext fun c => { c with txActive := false }
  let retain := (← context).config.retainValues
  for id in (← context).objects.map (·.id) do
    updateManager id fun m => { m with explicitlyPersisted := false, createdInTx := false }
    if !(← manager id).lifecycle.isPersistent then continue
    if (← transition id (.commit retain)) == .hollow then
      updateManager id (·.unloadAll)

/-- Rolls the open transaction back. -/
def rollback : Engine Unit := do
  if !(← context).txActive then throw .noActiveTransaction
  modifyContext fun c => { c with queue := [], relations := [], txActive := false }
  for id in (← context).objects.map (·.id) do
    let some m ← managed? id | continue
    if m.lifecycle == .transient then continue
    if m.lifecycle.isNew || m.createdInTx then disconnect id
    else
      discard <| transition id .rollback
      updateManager id (·.unloadAll)
  withConnection fun c db => c.rollback db

/-- Lets go of every object, rolling back an open transaction first. -/
def close : Engine Unit := do
  if (← context).txActive then
    modifyContext fun c => { c with txActive := false }
    withConnection fun c db => c.rollback db
  for id in (← context).objects.map (·.id) do
    disconnect id
  modifyContext fun c => { c with queue := [], relations := [] }
  let s ← get
  set { s with runtime := s.runtime.releaseAll s.ctx.id }

/-- Changes a setting of this context only. -/
def setProperty (name value : String) : Engine Unit := do
  match (← context).config.setProperty name value with
  | .ok cfg => modifyContext fun c => { c with config := cfg }
  | .error e => throw (.invalidProperty e)

end Engine

end ObjectPersistence
