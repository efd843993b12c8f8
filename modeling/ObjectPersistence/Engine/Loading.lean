import ObjectPersistence.Engine.Basic

/-! # Binding and loading objects

How objects come to be managed and how their fields come to be loaded. A new object is
transient with every field empty. An object known only to the datastore is bound hollow:
its header is known, none of its fields. A field is loaded on first use: for a transient or
new object it starts empty, otherwise the plain fields come from one load and each map
from a load of its own; the first load of a hollow object makes it clean. A map whose
separately fetched keys or values do not match its entries in number is reported. -/

namespace ObjectPersistence

namespace Engine

/-- The slot for a field's data: a wrapper for a container field, the value otherwise. -/
def makeSlot (id : ObjectId) (fm : FieldMeta) (data : Option FieldData) :
    Except EngineError Slot :=
  match fm.container with
  | some shape => (Wrapper.wrap shape ⟨id, fm.number⟩ fm.policy data).map .wrapper
  | none =>
    match data with
    | none => .ok (.value .null)
    | some (.scalar v) => .ok (.value v)
    | some _ => .error (.shapeMismatch "scalar" "container data")

def installData (id : ObjectId) (field : Nat) (data : Option FieldData) : Engine Unit := do
  let m ← manager id
  let fm ← core (m.cls.member field)
  let s ← lift (makeSlot id fm data)
  updateManager id (·.install field s)

/-- A transient object of a class, every field empty. -/
def newObject (className : String) : Engine ObjectId := do
  let cls ← findClass className
  let s ← get
  let id := ObjectId.fresh s.runtime.issued
  set { s with runtime := { s.runtime with issued := s.runtime.issued + 1 } }
  let mut m ← acquireManager id cls .transient
  for fm in cls.fields do
    m := m.install fm.number (← lift (makeSlot id fm none))
  adopt m
  pure id

def bindHollow (id : ObjectId) (cls : ClassMeta) (version : Option Int) : Engine Unit := do
  claim id
  let m ← acquireManager id cls .hollow
  adopt { m with version }

def ensureManaged (id : ObjectId) : Engine Unit := do
  if (← managed? id).isSome then return
  checkOwner id
  match ← storedHeader id with
  | none => throw (.objectNotFound id)
  | some h => bindHollow id (← findClass h.cls) h.version

/-- Looks an object up by identifier and binds it hollow; with `validate`, the datastore
must hold it, of this class. -/
def find (className : String) (id : ObjectId) (validate : Bool) : Engine ObjectId := do
  if (← managed? id).isSome then return id
  let cls ← findClass className
  let version ← if validate then
      match ← storedHeader id with
      | none => throw (.objectNotFound id)
      | some h =>
        if h.cls != cls.name then throw (.objectNotFound id)
        pure h.version
    else pure none
  bindHollow id cls version
  pure id

def loadMapField (id : ObjectId) (cls : ClassMeta) (field : Nat) : Engine FieldData := do
  let fetch ← loadStoredMap id cls field
  if let some keys := fetch.keys then
    if keys.length != fetch.entries.length then warn
  if let some values := fetch.values then
    if values.length != fetch.entries.length then warn
  pure (.map fetch.entries)

/-- Loads the given fields that are not loaded yet. -/
def ensureLoaded (id : ObjectId) (fields : List Nat) : Engine Unit := do
  let m ← manager id
  let cls := m.cls
  let missing := m.loaded.select fields false
  if missing.isEmpty then return
  for f in missing do
    discard <| core (cls.member f)
  if m.lifecycle == .transient || m.lifecycle.isNew then
    for f in missing do
      installData id f none
    return
  let isMap := fun f => (cls.member? f).any FieldMeta.isMap
  let maps := missing.filter isMap
  let others := missing.filter fun f => !isMap f
  let mut loaded := []
  if !others.isEmpty then
    loaded := loaded ++ (← loadStored id cls others)
  for f in maps do
    loaded := loaded ++ [(f, ← loadMapField id cls f)]
  for (f, data) in loaded do
    installData id f (some data)
  if (← manager id).lifecycle == .hollow then
    discard <| transition id .readField

/-- The content of a field, loading it first. -/
def readField (id : ObjectId) (field : Nat) : Engine FieldData := do
  ensureLoaded id [field]
  let m ← manager id
  match m.fieldData field with
  | some d => pure d
  | none => throw (.core (.unknownField m.cls.name field))

/-- Loads every relation field that is not loaded yet. -/
def loadRelations (id : ObjectId) : Engine Unit := do
  let cls ← classOf id
  ensureLoaded id cls.relationFields

end Engine

end ObjectPersistence
