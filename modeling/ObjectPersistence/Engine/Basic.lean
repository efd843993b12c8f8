import ObjectPersistence.Engine.Managed
import ObjectPersistence.Generation
import ObjectPersistence.Config

/-! # Units of work

An execution context is a unit of work over one datastore connection: the objects it
manages in the order it took them up, a free list of managers, the queue of container
changes waiting for a flush, the relation changes waiting to be repeated on the inverse
side, whether a transaction is open, and its settings. Every context of a runtime shares
the runtime's classes, value generators, default settings, and the registry that says
which context manages which object: an object is managed by at most one context at a time.

The backend of a context counts the calls that reach the datastore, remembers what was
written, and fails on request: the next few updates or queued applies, or by dropping one
key from every separately fetched key list.

Engine operations run in `Engine`: they read and change the runtime, the context and the
database of its connection, and a failure keeps every change made before it, as the
datastore and the managed objects do. -/

namespace ObjectPersistence

/-- One side of a two-sided relation changed; the inverse side has to follow. -/
structure RelationChange where
  owner : FieldOwner
  target : ObjectId
  added : Bool
  deriving DecidableEq, Repr

/-- Calls that reached the datastore, and the writes that succeeded. -/
structure CallCounts where
  headerReads : Nat := 0
  loads : Nat := 0
  mapLoads : Nat := 0
  inserts : Nat := 0
  updates : Nat := 0
  deletes : Nat := 0
  applies : Nat := 0
  inserted : List ObjectId := []
  deleted : List ObjectId := []
  applied : List Operation := []
  deriving DecidableEq, Repr, Inhabited

/-- Failures asked for. -/
structure Faults where
  failApplies : Nat := 0
  failUpdates : Nat := 0
  truncateMapKeys : Bool := false
  deriving DecidableEq, Repr, Inhabited

/-- A datastore connection that counts calls and fails on request. -/
structure Backend where
  conn : Datastore.Connection
  counts : CallCounts := {}
  faults : Faults := {}
  deriving Repr

/-- What every context of a runtime shares. -/
structure Runtime where
  schema : Schema
  defaultConfig : ContextConfig := .default
  generators : GenerationManager
  /-- Which context manages which object. -/
  owners : List (ObjectId × Nat) := []
  /-- Identifiers handed out so far. -/
  issued : Nat := 0
  /-- Warnings reported so far. -/
  warnings : Nat := 0

namespace Runtime

def findClass (r : Runtime) (name : String) : Except EngineError ClassMeta :=
  match r.schema.find? name with
  | some c => .ok c
  | none => .error (.unknownClass name)

def ownerOf (r : Runtime) (id : ObjectId) : Option Nat := r.owners.lookup id

def claim (r : Runtime) (id : ObjectId) (ctx : Nat) : Except EngineError Runtime :=
  match r.ownerOf id with
  | some o => if o != ctx then .error (.crossContext id) else .ok r
  | none => .ok { r with owners := r.owners ++ [(id, ctx)] }

def check (r : Runtime) (id : ObjectId) (ctx : Nat) : Except EngineError Unit :=
  match r.ownerOf id with
  | some o => if o != ctx then .error (.crossContext id) else .ok ()
  | none => .ok ()

def release (r : Runtime) (id : ObjectId) (ctx : Nat) : Runtime :=
  { r with owners := r.owners.filter fun (i, o) => !(i == id && o == ctx) }

def releaseAll (r : Runtime) (ctx : Nat) : Runtime :=
  { r with owners := r.owners.filter fun (_, o) => o != ctx }

end Runtime

/-- A unit of work. -/
structure Context where
  id : Nat
  config : ContextConfig
  objects : List ManagedObject := []
  pool : ManagerPool
  queue : List Operation := []
  relations : List RelationChange := []
  txActive : Bool := false
  backend : Backend
  deriving Repr

/-- A context over a connection, with the runtime's default settings. -/
def Context.create (id : Nat) (config : ContextConfig) (conn : Datastore.Connection) : Context :=
  { id, config, pool := { capacity := config.poolCapacity }, backend := { conn } }

/-- What an engine operation runs against. -/
structure EngineState where
  runtime : Runtime
  ctx : Context
  db : Datastore.Database

abbrev Engine := ExceptT EngineError (StateM EngineState)

namespace Engine

def context : Engine Context := do
  return (← get).ctx

def modifyContext (f : Context → Context) : Engine Unit :=
  modify fun s => { s with ctx := f s.ctx }

def modifyRuntime (f : Runtime → Runtime) : Engine Unit :=
  modify fun s => { s with runtime := f s.runtime }

def core {α} : Except CoreError α → Engine α
  | .ok a => pure a
  | .error e => throw (.core e)

def lift {α} : Except EngineError α → Engine α
  | .ok a => pure a
  | .error e => throw e

def managed? (id : ObjectId) : Engine (Option ManagedObject) := do
  return (← context).objects.find? (·.id == id)

def manager (id : ObjectId) : Engine ManagedObject := do
  match ← managed? id with
  | some m => pure m
  | none => throw (.notManaged id)

def lifecycle? (id : ObjectId) : Engine (Option LifecycleState) := do
  return (← managed? id).map (·.lifecycle)

def updateManager (id : ObjectId) (f : ManagedObject → ManagedObject) : Engine Unit :=
  modifyContext fun c => { c with objects := c.objects.map fun m => if m.id == id then f m else m }

def transition (id : ObjectId) (e : LifecycleEvent) : Engine LifecycleState := do
  let m ← core ((← manager id).transition e)
  updateManager id fun _ => m
  pure m.lifecycle

def classOf (id : ObjectId) : Engine ClassMeta := do
  return (← manager id).cls

def findClass (name : String) : Engine ClassMeta := do
  lift ((← get).runtime.findClass name)

def claim (id : ObjectId) : Engine Unit := do
  let s ← get
  let r ← lift (s.runtime.claim id s.ctx.id)
  set { s with runtime := r }

def checkOwner (id : ObjectId) : Engine Unit := do
  let s ← get
  lift (s.runtime.check id s.ctx.id)

def acquireManager (id : ObjectId) (cls : ClassMeta) (lifecycle : LifecycleState) :
    Engine ManagedObject := do
  let (m, pool) := (← context).pool.acquire id cls lifecycle
  modifyContext fun c => { c with pool }
  pure m

def adopt (m : ManagedObject) : Engine Unit :=
  modifyContext fun c => { c with objects := c.objects ++ [m] }

/-- Stops managing an object: its manager goes back to the free list, its queued changes
are dropped, and the runtime forgets that this context holds it. -/
def disconnect (id : ObjectId) : Engine Unit := do
  if (← managed? id).isSome then
    let s ← get
    set { s with runtime := s.runtime.release id s.ctx.id }
    modifyContext fun c =>
      { c with objects := c.objects.filter (·.id != id),
               queue := c.queue.filter (·.owner != id),
               pool := (c.objects.filter (·.id == id)).foldl ManagerPool.release c.pool }

def warn : Engine Unit := modifyRuntime fun r => { r with warnings := r.warnings + 1 }

/-! ## The backend -/

def access {α} (a : Datastore.Access α) : Engine α := do
  let s ← get
  let (r, conn, db) := s.ctx.backend.conn.run s.db a
  set { s with ctx := { s.ctx with backend := { s.ctx.backend with conn } }, db }
  match r with
  | .ok x => pure x
  | .error e => throw (.storage e)

def count (f : CallCounts → CallCounts) : Engine Unit :=
  modifyContext fun c => { c with backend := { c.backend with counts := f c.backend.counts } }

/-- Changes the backend's faults. -/
def setFaults (f : Faults → Faults) : Engine Unit :=
  modifyContext fun c => { c with backend := { c.backend with faults := f c.backend.faults } }

def storedHeader (id : ObjectId) : Engine (Option Datastore.ObjectHeader) := do
  count fun n => { n with headerReads := n.headerReads + 1 }
  access (Datastore.Access.header? id)

def loadStored (id : ObjectId) (c : ClassMeta) (fields : List Nat) :
    Engine (List (Nat × FieldData)) := do
  count fun n => { n with loads := n.loads + 1 }
  access (Datastore.Access.load id c fields)

def loadStoredMap (id : ObjectId) (c : ClassMeta) (field : Nat) : Engine Datastore.MapFetch := do
  count fun n => { n with mapLoads := n.mapLoads + 1 }
  let fetch ← access (Datastore.Access.loadMap id c field)
  if (← context).backend.faults.truncateMapKeys then
    let keys := fetch.keys.getD (fetch.entries.map (·.1))
    pure { fetch with keys := some keys.dropLast }
  else pure fetch

def storeNew (r : Datastore.ObjectRecord) : Engine Unit := do
  access (Datastore.Access.insert r)
  count fun n => { n with inserts := n.inserts + 1, inserted := n.inserted ++ [r.id] }

def storeUpdate (r : Datastore.ObjectRecord) (expected : Option Int) : Engine Unit := do
  if (← context).backend.faults.failUpdates > 0 then
    setFaults fun f => { f with failUpdates := f.failUpdates - 1 }
    throw (.storage (.injected ("update " ++ r.id.toUuidString)))
  access (Datastore.Access.update r expected)
  count fun n => { n with updates := n.updates + 1 }

def storeDelete (id : ObjectId) (version : Option Int) : Engine Unit := do
  access (Datastore.Access.delete id version)
  count fun n => { n with deletes := n.deletes + 1, deleted := n.deleted ++ [id] }

def storeApply (op : Operation) (c : ClassMeta) : Engine Unit := do
  if (← context).backend.faults.failApplies > 0 then
    setFaults fun f => { f with failApplies := f.failApplies - 1 }
    throw (.storage (.injected op.typeName))
  access (Datastore.Access.apply op c)
  count fun n => { n with applies := n.applies + 1, applied := n.applied ++ [op] }

def withConnection (f : Datastore.Connection → Datastore.Database →
    Datastore.Connection × Datastore.Database) : Engine Unit := do
  let s ← get
  let (conn, db) := f s.ctx.backend.conn s.db
  set { s with ctx := { s.ctx with backend := { s.ctx.backend with conn } }, db }

def reserve : BlockSource Engine := fun name size floor => do
  let s ← get
  let (r, conn, db) := s.ctx.backend.conn.run s.db (Datastore.Access.allocateBlock name size floor)
  set { s with ctx := { s.ctx with backend := { s.ctx.backend with conn } }, db }
  pure r

end Engine

end ObjectPersistence
