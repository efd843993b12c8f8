import ObjectPersistence.Value.Convert

/-! # Field metadata

What a class declares about each of its fields: the declared type, whether the field is a
container and of which shape, whether it relates to another class, how far persistence and
deletion cascade through it, whether nulls are allowed, which field of the related class is
its inverse, and how a missing value is generated. A container field hands its wrappers a
policy; dependency in that policy only holds for elements, keys or values that have an
identity of their own. -/

namespace ObjectPersistence

/-- The container a second-class field keeps its content in. -/
inductive ContainerShape where
  | set
  | list
  | map
  | orderedList
  | sortedSet
  | sortedMap
  | scalarMutable
  deriving DecidableEq, Repr, Inhabited

namespace ContainerShape

def isMap : ContainerShape → Bool
  | map | sortedMap => true
  | _ => false

def isCollection : ContainerShape → Bool
  | set | list | orderedList | sortedSet => true
  | _ => false

/-- The shape's name. -/
def name : ContainerShape → String
  | set => "set"
  | list => "list"
  | map => "map"
  | orderedList => "ordered-list"
  | sortedSet => "sorted-set"
  | sortedMap => "sorted-map"
  | scalarMutable => "scalar-mutable"

def ofName? (s : String) : Option ContainerShape :=
  [set, list, map, orderedList, sortedSet, sortedMap, scalarMutable].find? (·.name == s)

theorem ofName?_name (sh : ContainerShape) : ofName? sh.name = some sh := by
  cases sh <;> rfl

end ContainerShape

/-- How a field's value is generated when it is still null when the object is inserted. -/
inductive ValueStrategy where
  | increment
  | uuid
  | sequence (name : String)
  deriving DecidableEq, Repr, Inhabited

/-- The slice of field metadata a wrapper consults while it mutates. -/
structure ContainerPolicy where
  allowNulls : Bool := false
  dependentElements : Bool := false
  dependentKeys : Bool := false
  dependentValues : Bool := false
  elementsHaveIdentity : Bool := false
  keysHaveIdentity : Bool := false
  valuesHaveIdentity : Bool := false
  deriving DecidableEq, Repr, Inhabited

/-- Everything a class declares about one field. -/
structure FieldMeta where
  number : Nat := 0
  name : String
  valueType : ValueType
  container : Option ContainerShape := none
  /-- Target class of a relationship field. -/
  relation : Option String := none
  cascadePersist : Bool := false
  /-- A single reference whose target is deleted with the owner. -/
  dependent : Bool := false
  dependentElements : Bool := false
  dependentKeys : Bool := false
  dependentValues : Bool := false
  elementsHaveIdentity : Bool := false
  keysHaveIdentity : Bool := false
  valuesHaveIdentity : Bool := false
  allowNulls : Bool := true
  /-- Field number of the inverse side on the related class. -/
  mappedBy : Option Nat := none
  valueStrategy : Option ValueStrategy := none
  deriving DecidableEq, Repr, Inhabited

namespace FieldMeta

def scalar (name : String) (t : ValueType) : FieldMeta := { name, valueType := t }

def reference (name target : String) : FieldMeta :=
  { name, valueType := .ref, relation := some target }

def collection (name : String) (shape : ContainerShape) (t : ValueType) : FieldMeta :=
  { name, valueType := t, container := some shape }

def collectionOf (name : String) (shape : ContainerShape) (target : String) : FieldMeta :=
  { name, valueType := .ref, container := some shape, relation := some target,
    elementsHaveIdentity := true }

def map (name : String) (shape : ContainerShape) : FieldMeta :=
  { name, valueType := .any, container := some shape }

def mutableScalar (name : String) (t : ValueType) : FieldMeta :=
  { name, valueType := t, container := some .scalarMutable }

def withRefKeys (m : FieldMeta) (target : String) : FieldMeta :=
  { m with relation := some target, keysHaveIdentity := true }

def withRefValues (m : FieldMeta) (target : String) : FieldMeta :=
  { m with relation := some target, valuesHaveIdentity := true }

def withCascadePersist (m : FieldMeta) : FieldMeta := { m with cascadePersist := true }

/-- The field owns what it references: a map its keys or values that have identity, a
collection its elements, a single reference its target. -/
def withDependent (m : FieldMeta) : FieldMeta :=
  match m.container with
  | some s =>
    if s.isMap then { m with dependentKeys := m.keysHaveIdentity, dependentValues := m.valuesHaveIdentity }
    else if s.isCollection then { m with dependentElements := true }
    else { m with dependent := true }
  | none => { m with dependent := true }

def withMappedBy (m : FieldMeta) (inverse : Nat) : FieldMeta := { m with mappedBy := some inverse }

def withNotNull (m : FieldMeta) : FieldMeta := { m with allowNulls := false }

def withGenerated (m : FieldMeta) (s : ValueStrategy) : FieldMeta := { m with valueStrategy := some s }

def isRelation (m : FieldMeta) : Bool := m.relation.isSome

def isSco (m : FieldMeta) : Bool := m.container.isSome

def isMap (m : FieldMeta) : Bool := m.container.any ContainerShape.isMap

def isCollection (m : FieldMeta) : Bool := m.container.any ContainerShape.isCollection

/-- The policy the field's wrapper follows. -/
def policy (m : FieldMeta) : ContainerPolicy where
  allowNulls := m.allowNulls
  dependentElements := m.dependentElements && m.elementsHaveIdentity
  dependentKeys := m.dependentKeys && m.keysHaveIdentity
  dependentValues := m.dependentValues && m.valuesHaveIdentity
  elementsHaveIdentity := m.elementsHaveIdentity
  keysHaveIdentity := m.keysHaveIdentity
  valuesHaveIdentity := m.valuesHaveIdentity

end FieldMeta

end ObjectPersistence
