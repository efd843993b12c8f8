import ObjectPersistence.Datastore.Tables

/-! # Connections and transactions

A database is shared by its connections. Each connection works either statement by
statement, each unit of work committing on its own, or inside a transaction it began.

Readers never wait: a transaction reads the tables as they were committed when it first
touched the database, with its own writes laid over them. Writers take turns: the first
write of a transaction takes the database's single write lock, and keeps it until the
transaction ends. A write is refused as locked when another connection holds the lock, or
when the transaction's snapshot is older than the newest commit that changed rows. A write
refused before the transaction read anything leaves it without a view, so it sees later
commits. A unit of work that fails is undone as a whole, but a transaction that took the
lock keeps it. -/

namespace ObjectPersistence.Datastore

/-- A database: the committed tables, how many commits changed rows, and the connection
holding the write lock. -/
structure Database where
  tables : Tables := {}
  commits : Nat := 0
  writer : Option Nat := none
  deriving Repr, Inhabited

/-- An open transaction's view: the commit it started from and the tables it sees. -/
structure Snapshot where
  base : Nat
  tables : Tables
  /-- Some statement of the transaction changed rows. -/
  dirtied : Bool := false
  deriving Repr

/-- One connection to a database. -/
structure Connection where
  id : Nat
  /-- A transaction was begun and has not ended. -/
  explicit : Bool := false
  /-- The view of the open transaction, once it has touched the database. -/
  snapshot : Option Snapshot := none
  deriving Repr

/-- What a unit of work runs against, and what it did. -/
structure Work where
  tables : Tables
  mayWrite : Bool
  wrote : Bool := false
  dirtied : Bool := false
  touched : Bool := false

abbrev Access := ExceptT StorageError (StateM Work)

namespace Access

def read {α} (f : Tables → α) : Access α := do
  modify fun w => { w with touched := true }
  return f (← get).tables

/-- A writing statement, which takes the write lock first; answers the rows changed. -/
def write (f : Tables → Except DatabaseRefusal (Tables × Nat)) : Access Nat := do
  let w ← get
  if !w.mayWrite then throw (.database .locked)
  match f w.tables with
  | .error r =>
    set { w with touched := true, wrote := true }
    throw (.database r)
  | .ok (t, n) =>
    set { w with tables := t, touched := true, wrote := true, dirtied := w.dirtied || n > 0 }
    pure n

def change (f : Tables → Tables × Nat) : Access Nat := write fun t => .ok (f t)

end Access

namespace Connection

/-- The tables the connection reads: its transaction's view once the transaction has touched
the database, the committed tables otherwise. -/
def view (c : Connection) (db : Database) : Tables :=
  match c.snapshot with
  | some s => s.tables
  | none => db.tables

def holdsLock (c : Connection) (db : Database) : Bool := db.writer == some c.id

/-- Runs a unit of work. Outside a transaction its writes commit at once; inside one they
stay in the transaction's view. A failed unit changes no rows. -/
def run {α} (c : Connection) (db : Database) (a : Access α) :
    Except StorageError α × Connection × Database :=
  let view := match c.snapshot with
    | some s => s.tables
    | none => db.tables
  let fresh := match c.snapshot with
    | some s => s.base == db.commits
    | none => true
  let mayWrite := c.holdsLock db || (db.writer.isNone && fresh)
  let (r, w) := (ExceptT.run a).run { tables := view, mayWrite }
  if c.explicit then
    let base := match c.snapshot with
      | some s => s.base
      | none => db.commits
    let dirtied := (c.snapshot.map (·.dirtied)).getD false || w.dirtied
    let tables := match r with
      | .ok _ => w.tables
      | .error _ => view
    let snapshot := if w.touched || c.snapshot.isSome then some { base, tables, dirtied } else none
    (r, { c with snapshot }, { db with writer := if w.wrote then some c.id else db.writer })
  else
    match r with
    | .ok _ =>
      if w.wrote then
        (r, c, { db with tables := w.tables, commits := db.commits + (if w.dirtied then 1 else 0) })
      else (r, c, db)
    | .error _ => (r, c, db)

/-- Begins a transaction unless one is open. -/
def begin (c : Connection) : Connection :=
  if c.explicit then c else { c with explicit := true }

/-- Ends the open transaction: its writes become the database's. -/
def commit (c : Connection) (db : Database) : Connection × Database :=
  if !c.explicit then (c, db)
  else
    let db := match c.snapshot with
      | some s =>
        if c.holdsLock db then
          { db with tables := s.tables, commits := db.commits + (if s.dirtied then 1 else 0),
                    writer := none }
        else db
      | none => db
    ({ c with explicit := false, snapshot := none }, db)

/-- Ends the open transaction, dropping its writes. -/
def rollback (c : Connection) (db : Database) : Connection × Database :=
  if !c.explicit then (c, db)
  else
    ({ c with explicit := false, snapshot := none },
      if c.holdsLock db then { db with writer := none } else db)

def connect (id : Nat) (db : Database) : Except StorageError (Connection × Database) :=
  let c : Connection := { id }
  match c.run db (Access.change fun t => (t, 0)) with
  | (.ok _, c, db) => .ok (c, db)
  | (.error e, _, _) => .error e

end Connection

end ObjectPersistence.Datastore
