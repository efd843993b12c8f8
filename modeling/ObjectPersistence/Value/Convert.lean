import ObjectPersistence.Value.Basic
import ObjectPersistence.Numeral

/-! # Declared types and conversion

A scalar field, or a container's elements, declare a type. Conversion to a declared type
keeps null as null and anything as it is for `any`; otherwise it succeeds only where no
information is lost: an integer becomes a decimal text, the nearest float or a timestamp of
the same number, a text becomes the integer or float it spells, and a timestamp becomes the
integer of the same number. -/

namespace ObjectPersistence

/-- The declared type of a scalar field or of a container's elements. -/
inductive ValueType where
  | any
  | text
  | integer
  | float
  | boolean
  | timestamp
  | ref
  | bytes
  deriving DecidableEq, Repr, Inhabited

namespace ValueType

/-- The type's name in lower case. -/
def name : ValueType → String
  | any => "any"
  | text => "text"
  | integer => "integer"
  | float => "float"
  | boolean => "boolean"
  | timestamp => "timestamp"
  | ref => "ref"
  | bytes => "bytes"

def ofName? (s : String) : Option ValueType :=
  [any, text, integer, float, boolean, timestamp, ref, bytes].find? (·.name == s)

theorem ofName?_name (t : ValueType) : ofName? t.name = some t := by
  cases t <;> rfl

end ValueType

namespace Value

/-- The value as the declared type holds it, or `none` when no lossless conversion exists. -/
def convert : Value → ValueType → Option Value
  | null, _ => some null
  | v, .any => some v
  | integer n, .integer => some (integer n)
  | integer n, .text => some (text (toString n))
  | integer n, .float => some (float (Binary64.ofInt n))
  | integer n, .timestamp => some (timestamp n)
  | text s, .text => some (text s)
  | text s, .integer => (Numeral.readInt64? s).map integer
  | text s, .float => (Numeral.readFloat? s).map float
  | float f, .float => some (float f)
  | boolean b, .boolean => some (boolean b)
  | timestamp t, .timestamp => some (timestamp t)
  | timestamp t, .integer => some (integer t)
  | ref id, .ref => some (ref id)
  | bytes b, .bytes => some (bytes b)
  | _, _ => none

end Value

end ObjectPersistence
