import ObjectPersistence.Wrapper.Basic

/-! # Wrapper mutations

Each mutation of a wrapper, with the requests it makes of its owner. A call first checks the
shape, then that the wrapper is bound, then its arguments; only then does it change the
content. A change marks the owner's field dirty once per call and, outside a transaction,
reports it. With queueing on, every element added or removed is queued as an operation;
with queueing off, a removal that may cascade deletes a dependent element right away. With
relation management on, every element offered to or taken from the container is reported,
whether or not the content changed. -/

namespace ObjectPersistence

/-- A wrapper call: it changes the wrapper and records requests to the owner in order; a
failure keeps what was done before it. -/
abbrev WrapperCall := ExceptT EngineError (StateM (Wrapper × List HostEvent))

namespace WrapperCall

/-- Runs a call on a wrapper, answering the wrapper after it, the requests and the result. -/
def run {α} (c : WrapperCall α) (w : Wrapper) : Wrapper × List HostEvent × Except EngineError α :=
  let (r, (w', es)) := (ExceptT.run c).run (w, [])
  (w', es, r)

def emit (e : HostEvent) : WrapperCall Unit :=
  modify fun (w, es) => (w, es ++ [e])

def wrapper : WrapperCall Wrapper := do
  return (← get).1

def setContent (c : Content) : WrapperCall Unit :=
  modify fun (w, es) => ({ w with content := c }, es)

def bound : WrapperCall FieldOwner := do
  match (← wrapper).owner with
  | some o => pure o
  | none => throw .unbound

def checkNullable (e : Value) : WrapperCall Unit := do
  if e.isNull && !(← wrapper).policy.allowNulls then throw (.invalidElement .nullElement)

def changed (h : HostView) (owner : FieldOwner) : WrapperCall Unit := do
  emit (.makeDirty owner)
  if !h.transactionActive then emit (.nontransactional owner)

def sequence : WrapperCall (CollectionKind × List Value) := do
  let w ← wrapper
  match w.content with
  | .collection k xs => pure (k, xs)
  | _ => throw (.shapeMismatch "collection" w.shape.name)

def entries : WrapperCall (Bool × List (Value × Value)) := do
  let w ← wrapper
  match w.content with
  | .map s es => pure (s, es)
  | _ => throw (.shapeMismatch "map" w.shape.name)

def listItems : WrapperCall (List Value) := do
  let w ← wrapper
  match w.content with
  | .collection .list xs => pure xs
  | _ => throw (.shapeMismatch "list" w.shape.name)

/-- After an element left the container: queue its removal, or delete it when it is a
dependent and the removal may cascade. -/
def cascadeRemoval (h : HostView) (owner : FieldOwner) (payload : Payload) (e : Value)
    (allowCascade : Bool) : WrapperCall Unit := do
  if h.queued then emit (.enqueue (Operation.remove owner.object owner.field payload allowCascade))
  else if allowCascade && (← wrapper).policy.dependentElements && e.isPersistable then
    emit (.deleteDependent e)

/-- One round of a batch removal: removes the first copy of an element without marking
dirty; answers `true` when there was one and `any` otherwise. -/
def removeRound (h : HostView) (owner : FieldOwner) (allowCascade : Bool) (any : Bool)
    (e : Value) : WrapperCall Bool := do
  let (k, xs) ← sequence
  let (xs', present) := Container.removeFirst xs e
  setContent (.collection k xs')
  if h.manageRelations then emit (.relationRemove owner e)
  if present then
    cascadeRemoval h owner (.element e) e allowCascade
    pure true
  else pure any

def removeEach (h : HostView) (owner : FieldOwner) (elements : List Value)
    (allowCascade : Bool) : WrapperCall Bool :=
  elements.foldlM (removeRound h owner allowCascade) false

/-- One round of a batch insertion: inserts an element without marking dirty; answers `true`
when it went in and `any` otherwise. -/
def insertRound (h : HostView) (owner : FieldOwner) (any : Bool) (e : Value) :
    WrapperCall Bool := do
  let (k, xs) ← sequence
  let (xs', inserted) := k.insert xs e
  setContent (.collection k xs')
  if h.manageRelations then emit (.relationAdd owner e)
  if inserted then
    if h.queued then emit (.enqueue (Operation.add owner.object owner.field (.element e)))
    pure true
  else pure any

def insertEach (h : HostView) (owner : FieldOwner) (elements : List Value) : WrapperCall Bool :=
  elements.foldlM (insertRound h owner) false

def releaseOne (h : HostView) (owner : FieldOwner) (e : Value) : WrapperCall Unit := do
  if h.manageRelations then emit (.relationRemove owner e)
  cascadeRemoval h owner (.element e) e true

def releaseAll (h : HostView) (owner : FieldOwner) (elements : List Value) : WrapperCall Unit :=
  elements.forM (releaseOne h owner)

/-- Takes a key out without marking dirty: queue its removal or delete a dependent key, and
delete a dependent value whether queued or not. -/
def removeEntry (h : HostView) (owner : FieldOwner) (k : Value) (allowCascade : Bool) :
    WrapperCall (Option Value) := do
  let (s, es) ← entries
  let (es', taken) := Container.take es k
  match taken with
  | none => pure none
  | some v =>
    setContent (.map s es')
    let policy := (← wrapper).policy
    if h.manageRelations then emit (.relationRemove owner v)
    if h.queued then
      emit (.enqueue (Operation.remove owner.object owner.field (.key k) allowCascade))
    else if allowCascade && policy.dependentKeys && k.isPersistable then
      emit (.deleteDependent k)
    if allowCascade && policy.dependentValues && v.isPersistable then
      emit (.deleteDependent v)
    pure (some v)

def removeKeys (h : HostView) (owner : FieldOwner) (keys : List Value) (allowCascade : Bool) :
    WrapperCall Unit :=
  keys.forM fun k => discard <| removeEntry h owner k allowCascade

/-! ## Collections -/

/-- Adds an element; tells whether the content changed. -/
def add (h : HostView) (e : Value) : WrapperCall Bool := do
  discard <| sequence
  let owner ← bound
  checkNullable e
  let any ← insertEach h owner [e]
  if any then changed h owner
  pure any

/-- Adds elements, refusing all when one is null where nulls are forbidden. -/
def addAll (h : HostView) (es : List Value) : WrapperCall Bool := do
  discard <| sequence
  let owner ← bound
  es.forM checkNullable
  let any ← insertEach h owner es
  if any then changed h owner
  pure any

/-- Removes one occurrence of an element. -/
def remove (h : HostView) (e : Value) (allowCascade : Bool) : WrapperCall Bool := do
  discard <| sequence
  let owner ← bound
  let present ← removeEach h owner [e] allowCascade
  if present then changed h owner
  pure present

/-- Removes one occurrence of each element; an empty list succeeds without change. -/
def removeAll (h : HostView) (es : List Value) : WrapperCall Bool := do
  discard <| sequence
  let owner ← bound
  if es.isEmpty then return true
  let any ← removeEach h owner es true
  if any then changed h owner
  pure any

/-- Removes every element not in `keep`. -/
def retainAll (h : HostView) (keep : List Value) : WrapperCall Bool := do
  let (_, xs) ← sequence
  let owner ← bound
  let any ← removeEach h owner (xs.filter fun x => !keep.contains x) true
  if any then changed h owner
  pure any

/-- Empties a collection or a map; always marks dirty. -/
def clear (h : HostView) : WrapperCall Unit := do
  let w ← wrapper
  match w.content with
  | .map _ es =>
    let owner ← bound
    removeKeys h owner (es.map (·.1)) true
    let (s, _) ← entries
    setContent (.map s [])
    changed h owner
  | _ =>
    let (k, xs) ← sequence
    let owner ← bound
    releaseAll h owner xs
    setContent (.collection k [])
    changed h owner

/-- Brings the elements in line with a detached copy: stale elements go without cascading,
missing ones are added. -/
def attachCollection (h : HostView) (detached : List Value) : WrapperCall Bool := do
  let (_, xs) ← sequence
  let owner ← bound
  let stale := xs.filter fun x => !detached.contains x
  let fresh := detached.filter fun x => !xs.contains x
  let removed ← removeEach h owner stale false
  if removed then changed h owner
  let added ← if fresh.isEmpty then pure false else addAll h fresh
  pure (removed || added)

/-! ## Lists -/

/-- The element at a position of a list. -/
def get (i : Nat) : WrapperCall (Option Value) := do
  return (← listItems)[i]?

/-- Inserts at a position no greater than the length. -/
def insertAt (h : HostView) (i : Nat) (e : Value) : WrapperCall Unit := do
  let xs ← listItems
  let owner ← bound
  if i > xs.length then throw (.indexOutOfBounds i xs.length)
  checkNullable e
  setContent (.collection .list (xs.insertIdx i e))
  if h.manageRelations then emit (.relationAdd owner e)
  if h.queued then emit (.enqueue (Operation.add owner.object owner.field (.indexed i e)))
  changed h owner

/-- Replaces the element at a position; answers the previous one. -/
def setAt (h : HostView) (i : Nat) (e : Value) (allowCascade : Bool) : WrapperCall Value := do
  let xs ← listItems
  let owner ← bound
  match xs[i]? with
  | none => throw (.indexOutOfBounds i xs.length)
  | some previous =>
    checkNullable e
    setContent (.collection .list (xs.set i e))
    if h.manageRelations then
      emit (.relationRemove owner previous)
      emit (.relationAdd owner e)
    if h.queued then
      emit (.enqueue (Operation.remove owner.object owner.field (.indexed i previous) allowCascade))
      emit (.enqueue (Operation.add owner.object owner.field (.indexed i e)))
    else if allowCascade && (← wrapper).policy.dependentElements && previous.isPersistable &&
        previous != e then
      emit (.deleteDependent previous)
    changed h owner
    pure previous

/-- Removes the element at a position; answers it. -/
def removeAt (h : HostView) (i : Nat) : WrapperCall Value := do
  let xs ← listItems
  let owner ← bound
  match xs[i]? with
  | none => throw (.indexOutOfBounds i xs.length)
  | some removed =>
    setContent (.collection .list (xs.eraseIdx i))
    if h.manageRelations then emit (.relationRemove owner removed)
    cascadeRemoval h owner (.indexed i removed) removed true
    changed h owner
    pure removed

/-! ## Maps -/

def validate (k v : Value) : WrapperCall Unit := do
  if k.isNull then throw (.invalidElement .nullKey)
  checkNullable v

/-- Puts an entry without marking dirty; answers the previous value and whether the map
changed. A replaced dependent value is deleted. -/
def putEntry (h : HostView) (owner : FieldOwner) (k v : Value) :
    WrapperCall (Option Value × Bool) := do
  let (s, es) ← entries
  let (es', previous) := Container.put s es k v
  setContent (.map s es')
  let changedMap := previous != some v
  if h.manageRelations then
    if let some old := previous then
      if old != v then emit (.relationRemove owner old)
    emit (.relationAdd owner v)
  if changedMap then
    if h.queued then emit (.enqueue (Operation.add owner.object owner.field (.entry k v)))
    if let some old := previous then
      if (← wrapper).policy.dependentValues && old.isPersistable then
        emit (.deleteDependent old)
  pure (previous, changedMap)

/-- Puts an entry; answers the previous value. -/
def put (h : HostView) (k v : Value) : WrapperCall (Option Value) := do
  discard <| entries
  let owner ← bound
  validate k v
  let (previous, changedMap) ← putEntry h owner k v
  if changedMap then changed h owner
  pure previous

def validateAll (kvs : List (Value × Value)) : WrapperCall Unit :=
  kvs.forM fun (k, v) => validate k v

/-- One round of a batch put: puts an entry without marking dirty; answers whether this or
an earlier round changed the map. -/
def putRound (h : HostView) (owner : FieldOwner) (any : Bool) (kv : Value × Value) :
    WrapperCall Bool := do
  let (_, c) ← putEntry h owner kv.1 kv.2
  pure (any || c)

/-- Puts entries, refusing all when one is invalid. -/
def putAll (h : HostView) (kvs : List (Value × Value)) : WrapperCall Bool := do
  discard <| entries
  let owner ← bound
  validateAll kvs
  let any ← kvs.foldlM (putRound h owner) false
  if any then changed h owner
  pure any

/-- Removes a key; answers its value. -/
def removeKey (h : HostView) (k : Value) : WrapperCall (Option Value) := do
  discard <| entries
  let owner ← bound
  let removed ← removeEntry h owner k true
  if removed.isSome then changed h owner
  pure removed

/-- Removes every key not in `keep`. -/
def retainKeys (h : HostView) (keep : List Value) : WrapperCall Bool := do
  let (_, es) ← entries
  let owner ← bound
  let doomed := (es.map (·.1)).filter fun k => !keep.contains k
  removeKeys h owner doomed true
  if !doomed.isEmpty then changed h owner
  pure !doomed.isEmpty

def lookup (k : Value) : WrapperCall (Option Value) := do
  let (_, es) ← entries
  pure (Container.lookup es k)

/-- One round of dropping stale keys: takes a key out without cascading; answers whether
this or an earlier round took one. -/
def dropRound (h : HostView) (owner : FieldOwner) (any : Bool) (k : Value) : WrapperCall Bool := do
  let r ← removeEntry h owner k false
  pure (any || r.isSome)

/-- One round of bringing entries in line: puts an entry whose value differs; answers whether
this or an earlier round changed the map. -/
def attachRound (h : HostView) (owner : FieldOwner) (any : Bool) (kv : Value × Value) :
    WrapperCall Bool := do
  let (_, now) ← entries
  if Container.lookup now kv.1 != some kv.2 then
    let (_, c) ← putEntry h owner kv.1 kv.2
    pure (any || c)
  else pure any

/-- Brings the entries in line with a detached copy: stale keys go without cascading,
differing entries are put. -/
def attachMap (h : HostView) (detached : List (Value × Value)) : WrapperCall Bool := do
  let (_, es) ← entries
  let owner ← bound
  validateAll detached
  let stale := (es.map (·.1)).filter fun k => !detached.any (·.1 == k)
  let removed ← stale.foldlM (dropRound h owner) false
  let any ← detached.foldlM (attachRound h owner) removed
  if any then changed h owner
  pure any

/-! ## Mutable scalars -/

/-- Replaces the scalar; answers the previous value, or the new one when they are equal. -/
def setScalar (h : HostView) (v : Value) : WrapperCall Value := do
  let w ← wrapper
  match w.content with
  | .scalar current =>
    let owner ← bound
    checkNullable v
    if v == current then return v
    setContent (.scalar v)
    changed h owner
    pure current
  | _ => throw (.shapeMismatch "scalar-mutable" w.shape.name)

/-! ## Any shape -/

/-- Brings the wrapper in line with detached data of its shape; tells whether it changed. -/
def attach (h : HostView) (d : FieldData) : WrapperCall Bool := do
  let w ← wrapper
  match w.content, d with
  | .scalar current, .scalar v =>
    if v == current then return false
    discard <| setScalar h v
    pure true
  | .map _ _, .map es => attachMap h es
  | .collection _ _, .collection items => attachCollection h items
  | _, _ => throw (.shapeMismatch w.shape.name "detached data of another shape")

end WrapperCall

end ObjectPersistence
