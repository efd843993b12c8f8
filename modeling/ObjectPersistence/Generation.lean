import ObjectPersistence.Datastore.Records

/-! # Value generation

Values for fields that are still null when their object is stored. A field's strategy picks
its generator: `increment` counts in a sequence of its own, named after the field; a named
sequence is shared by every field that names it; `uuid` hands out fresh uuid texts. A
counting generator reserves a block of consecutive integers from a datastore sequence and
hands them out one by one; it asks for the next block only when the current one is spent,
and never below the end of the blocks it already had, so a reservation that a rollback
undid in the datastore does not give the same integers twice. Generators are created on
first use and live as long as the manager. -/

namespace ObjectPersistence

/-- Where a counting generator reserves blocks: given the sequence, the block size and the
floor, the first value of the block. -/
abbrev BlockSource (m : Type → Type) := String → Nat → Int → m (Except StorageError Int)

def Datastore.Connection.reserve : BlockSource (StateM (Datastore.Connection × Datastore.Database)) :=
  fun name size floor => do
    let (c, db) ← get
    let (r, c, db) := c.run db (Datastore.Access.allocateBlock name size floor)
    set (c, db)
    pure r

/-- A generator counting through blocks of a datastore sequence. -/
structure BlockCounter where
  sequence : String
  /-- At least one. -/
  blockSize : Nat
  next : Int := 0
  remaining : Nat := 0
  /-- One past the last value of every block reserved so far. -/
  reservedUntil : Int := 1
  deriving DecidableEq, Repr

namespace BlockCounter

/-- A counter for a sequence; a block holds at least one value. -/
def create (sequence : String) (blockSize : Nat) : BlockCounter :=
  { sequence, blockSize := max blockSize 1 }

/-- The next integer, reserving a new block when the current one is spent. Counting wraps
around at the ends of the sixty-four bit integers. -/
def take {m} [Monad m] (c : BlockCounter) (source : Option (BlockSource m)) :
    m (Except StorageError (Int × BlockCounter)) := do
  if c.remaining == 0 then
    match source with
    | none => pure (.error (.noSequenceSource c.sequence))
    | some reserve =>
      match ← reserve c.sequence c.blockSize c.reservedUntil with
      | .error e => pure (.error e)
      | .ok first =>
        let next := Datastore.wrap64 (first + 1)
        let reservedUntil := Datastore.wrap64 (first + Datastore.wrap64 c.blockSize)
        pure (.ok (first, { c with next, remaining := c.blockSize - 1, reservedUntil }))
  else
    let next := Datastore.wrap64 (c.next + 1)
    pure (.ok (c.next, { c with next, remaining := c.remaining - 1 }))

end BlockCounter

/-- A value generator. -/
inductive Generator where
  | counter (c : BlockCounter)
  | uuid
  deriving DecidableEq, Repr

/-- The generators of a runtime, by key, and how many uuid texts were handed out. -/
structure GenerationManager where
  blockSize : Nat
  generators : List (String × Generator) := []
  uuids : Nat := 0
  deriving Repr

namespace GenerationManager

/-- Every field counting on its own has its own generator; sequences and uuids are shared
by name. -/
def key (member : String) : ValueStrategy → String
  | .increment => "increment:" ++ member
  | .uuid => "uuid"
  | .sequence name => "sequence:" ++ name

def count (g : GenerationManager) : Nat := g.generators.length

def uuidText (n : Nat) : String := ObjectId.toUuidString ⟨0x01900000000070009000000000000000 + n⟩

/-- Replaces the generator under a key. -/
def put (g : GenerationManager) (k : String) (gen : Generator) : GenerationManager :=
  { g with generators := g.generators.map fun (k', x) => if k' == k then (k', gen) else (k', x) }

/-- The generator for a field with a strategy, created on first use. -/
def generatorFor (g : GenerationManager) (member : String) (s : ValueStrategy) :
    Generator × GenerationManager :=
  let k := key member s
  match g.generators.lookup k with
  | some gen => (gen, g)
  | none =>
    let gen : Generator := match s with
      | .increment => .counter (BlockCounter.create member g.blockSize)
      | .uuid => .uuid
      | .sequence name => .counter (BlockCounter.create name g.blockSize)
    (gen, { g with generators := g.generators ++ [(k, gen)] })

/-- The next value for a field with a strategy; the generator is created on first use and
kept even when it fails. -/
def next {m} [Monad m] (g : GenerationManager) (member : String) (s : ValueStrategy)
    (source : Option (BlockSource m)) : m (Except StorageError Value × GenerationManager) := do
  let k := key member s
  let (gen, g) := g.generatorFor member s
  match gen with
  | .uuid => pure (.ok (.text (uuidText g.uuids)), { g with uuids := g.uuids + 1 })
  | .counter c =>
    match ← c.take source with
    | .ok (v, c') => pure (.ok (.integer v), g.put k (.counter c'))
    | .error e => pure (.error e, g)

end GenerationManager

end ObjectPersistence
