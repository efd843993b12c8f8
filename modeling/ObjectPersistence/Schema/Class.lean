import ObjectPersistence.Schema.Field
import ObjectPersistence.Error

/-! # Class metadata

A class is a name, a flag for optimistic versioning, and its fields; a field's number is
its position. A set of classes is looked up by name. -/

namespace ObjectPersistence

/-- A persistable class. -/
structure ClassMeta where
  name : String
  versioned : Bool := false
  fields : List FieldMeta := []
  deriving DecidableEq, Repr, Inhabited

namespace ClassMeta

def addField (c : ClassMeta) (m : FieldMeta) : ClassMeta :=
  { c with fields := c.fields ++ [{ m with number := c.fields.length }] }

def ofFields (name : String) (versioned : Bool) (fields : List FieldMeta) : ClassMeta :=
  fields.foldl addField { name, versioned }

def fieldCount (c : ClassMeta) : Nat := c.fields.length

def member? (c : ClassMeta) (n : Nat) : Option FieldMeta := c.fields[n]?

def member (c : ClassMeta) (n : Nat) : Except CoreError FieldMeta :=
  match c.member? n with
  | some m => .ok m
  | none => .error (.unknownField c.name n)

def relationFields (c : ClassMeta) : List Nat :=
  (c.fields.filter FieldMeta.isRelation).map (·.number)

end ClassMeta

/-- Classes looked up by name. -/
structure Schema where
  classes : List ClassMeta
  deriving Inhabited

def Schema.find? (s : Schema) (name : String) : Option ClassMeta :=
  s.classes.reverse.find? (·.name == name)

end ObjectPersistence
