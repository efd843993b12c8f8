import ObjectPersistence.Engine.Detached

/-! # Sessions

A session is one runtime serving several named contexts, each over its own connection to
one of several named databases. Each database also has an inspector connection, opened
when the database is first used, that reads what was committed. Detached copies can be
kept under a name and edited before they are attached again.

Replacing a context drops the old one: the runtime forgets what it managed and its
connection goes away, rolling back what it had not committed. Ending the session drops
every context in the same way. -/

namespace ObjectPersistence

/-- An open context and the database its connection is on. -/
structure ContextEntry where
  name : String
  db : String
  ctx : Context
  deriving Repr

/-- A database and its inspector connection. -/
structure DatabaseEntry where
  name : String
  database : Datastore.Database
  inspector : Datastore.Connection
  deriving Repr

/-- A runtime with its contexts, databases and kept copies. -/
structure Session where
  runtime : Runtime
  dbs : List DatabaseEntry := []
  contexts : List ContextEntry := []
  graphs : List (String × DetachedGraph) := []
  /-- Connections opened so far, which numbers them. -/
  connections : Nat := 0
  /-- Contexts opened so far, which numbers them. -/
  opened : Nat := 0

namespace Session

/-- A session over classes, with default settings and a generator block size. -/
def create (schema : Schema) (config : ContextConfig) (blockSize : Nat) : Session :=
  { runtime := { schema, defaultConfig := config, generators := { blockSize } } }

def database? (s : Session) (name : String) : Option DatabaseEntry := s.dbs.find? (·.name == name)

def setDatabase (s : Session) (e : DatabaseEntry) : Session :=
  { s with dbs := s.dbs.map fun d => if d.name == e.name then e else d }

def useDatabase (s : Session) (name : String) : Session :=
  if (s.database? name).isSome then s
  else
    match Datastore.Connection.connect s.connections {} with
    | .ok (inspector, database) =>
      { s with dbs := s.dbs ++ [{ name, database, inspector }], connections := s.connections + 1 }
    | .error _ => s

def context? (s : Session) (name : String) : Option ContextEntry := s.contexts.find? (·.name == name)

def drop (s : Session) (e : ContextEntry) : Session :=
  let s := { s with runtime := s.runtime.releaseAll e.ctx.id }
  match s.database? e.db with
  | some d =>
    let (_, database) := e.ctx.backend.conn.rollback d.database
    s.setDatabase { d with database }
  | none => s

/-- Opens a context on a database, replacing a context of the same name. -/
def openContext (s : Session) (name db : String) : Except StorageError Session :=
  let s := s.useDatabase db
  match s.database? db with
  | none => .ok s
  | some d =>
    match Datastore.Connection.connect s.connections d.database with
    | .error e => .error e
    | .ok (conn, database) =>
      let s := { s.setDatabase { d with database } with connections := s.connections + 1 }
      let ctx := Context.create s.opened s.runtime.defaultConfig conn
      let entry : ContextEntry := { name, db, ctx }
      let s := { s with opened := s.opened + 1 }
      match s.context? name with
      | some old =>
        let s := s.drop old
        .ok { s with contexts := s.contexts.map fun e => if e.name == name then entry else e }
      | none => .ok { s with contexts := s.contexts ++ [entry] }

def ensureContext (s : Session) (name db : String) : Except StorageError Session :=
  if (s.context? name).isSome then .ok s else s.openContext name db

/-- Runs an engine operation in a context, if the context is open. -/
def run {α} (s : Session) (name : String) (op : Engine α) : Option (Except EngineError α × Session) := do
  let e ← s.context? name
  let d ← s.database? e.db
  let (r, st) := (ExceptT.run op).run { runtime := s.runtime, ctx := e.ctx, db := d.database }
  let s := { s with runtime := st.runtime }
  let s := s.setDatabase { d with database := st.db }
  pure (r, { s with contexts := s.contexts.map fun c => if c.name == name then { c with ctx := st.ctx } else c })

/-- Reads a committed object through a database's inspector: its header and every field. -/
def stored (s : Session) (db : String) (id : ObjectId) :
    Except EngineError (Option (Datastore.ObjectHeader × List (Nat × FieldData))) :=
  match s.database? db with
  | none => .ok none
  | some d =>
    let read {α} (a : Datastore.Access α) : Except EngineError α :=
      match (d.inspector.run d.database a).1 with
      | .ok x => .ok x
      | .error e => .error (.storage e)
    match read (Datastore.Access.header? id) with
    | .error e => .error e
    | .ok none => .ok none
    | .ok (some h) =>
      match s.runtime.findClass h.cls with
      | .error e => .error e
      | .ok cls =>
        match read (Datastore.Access.snapshot id cls) with
        | .ok fields => .ok (some (h, fields))
        | .error e => .error e

def storedIds (s : Session) (db : String) : List ObjectId :=
  match s.database? db with
  | some d => d.database.tables.objects.map (·.id)
  | none => []

def storedObjects (s : Session) (db : String) :
    List (Datastore.ObjectHeader × List (Nat × FieldData)) :=
  (s.storedIds db).filterMap fun id =>
    match s.stored db id with
    | .ok (some x) => some x
    | _ => none

/-- The committed sequences of a database that hold an integer; one that has left the
integers is not listed. -/
def sequences (s : Session) (db : String) : List (String × Int) :=
  match s.database? db with
  | some d => d.database.tables.sequences.filterMap fun (n, c) =>
    match c with
    | .int v => some (n, v)
    | .real _ => none
  | none => []

def finish (s : Session) : Session := s.contexts.foldl drop s

def contextName? (s : Session) (id : Nat) : Option String :=
  (s.contexts.find? (·.ctx.id == id)).map (·.name)

def ownerName? (s : Session) (id : ObjectId) : Option String :=
  (s.runtime.ownerOf id).bind s.contextName?

def graph? (s : Session) (name : String) : Option DetachedGraph := s.graphs.lookup name

def keep (s : Session) (name : String) (g : DetachedGraph) : Session :=
  { s with graphs := s.graphs.filter (·.1 != name) ++ [(name, g)] }

/-- Edits one object of a kept copy, answering whether the copy holds it; `none` when no
copy is kept under the name. -/
def editGraph (s : Session) (name : String) (id : ObjectId) (f : DetachedObject → DetachedObject) :
    Option (Session × Bool) :=
  (s.graph? name).map fun g => (s.keep name (g.modify id f), g.contains id)

end Session

end ObjectPersistence
