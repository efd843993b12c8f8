import ObjectPersistence.Value.Basic

/-! # Field contents

The materialized content of one persistent field: a single value, a sequence of values, or a
sequence of key-value entries. The references a content holds are listed in its order, a key
before its value. -/

namespace ObjectPersistence

/-- The content of one persistent field. -/
inductive FieldData where
  | scalar (v : Value)
  | collection (items : List Value)
  | map (entries : List (Value × Value))
  deriving DecidableEq, Repr, Inhabited

namespace FieldData

def empty : FieldData := scalar .null

def references : FieldData → List ObjectId
  | scalar v => v.refId?.toList
  | collection items => items.filterMap Value.refId?
  | map entries => entries.flatMap fun (k, v) => k.refId?.toList ++ v.refId?.toList

def scalar? : FieldData → Option Value
  | scalar v => some v
  | _ => none

def isCollection : FieldData → Bool
  | collection _ => true
  | _ => false

def isMap : FieldData → Bool
  | map _ => true
  | _ => false

end FieldData

end ObjectPersistence
