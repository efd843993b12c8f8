import ObjectPersistence.Value.Basic
import ObjectPersistence.Binary64.Shortest
import ObjectPersistence.Text.Escaped

/-! # Diagnostic text of values

How a value appears inside a diagnostic: the kind's name with the content in parentheses,
a text quoted and escaped, a float in its diagnostic form, a reference by the first eight
digits of its identifier, bytes as a bracketed list of numbers. -/

namespace ObjectPersistence.Value

/-- The value as a diagnostic shows it. -/
def diagnostic : Value → String
  | null => "Null"
  | text s => "Text(" ++ Text.quoted s ++ ")"
  | integer n => "Integer(" ++ toString n ++ ")"
  | float b => "Float(" ++ Binary64.diagnosticText b ++ ")"
  | boolean b => "Boolean(" ++ (if b then "true" else "false") ++ ")"
  | timestamp t => "Timestamp(" ++ toString t ++ ")"
  | ref id => "Ref(ObjectId(" ++ (id.toUuidString.take 8).toString ++ "))"
  | bytes bs => "Bytes([" ++ ", ".intercalate (bs.map fun b => toString b.toNat) ++ "])"

end ObjectPersistence.Value
