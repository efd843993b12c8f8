import ObjectPersistence.Text.Printable
/-! # Escaped text

The diagnostic form of a text: it stands between double quotes, a quote and a backslash are
preceded by a backslash, tab, carriage return, line feed and NUL are written `\t`, `\r`,
`\n`, `\0`, and any other character that `writtenByCodePoint` picks is written as `\u` with
its code point in hexadecimal between braces. -/

namespace ObjectPersistence.Text

def hexOf (n : Nat) : String :=
  String.ofList (Nat.toDigits 16 n)

/-- The escaped form of one character. -/
def escapeChar (c : Char) : String :=
  if c = '"' then "\\\""
  else if c = '\\' then "\\\\"
  else if c = '\t' then "\\t"
  else if c = '\r' then "\\r"
  else if c = '\n' then "\\n"
  else if c.toNat = 0 then "\\0"
  else if writtenByCodePoint c then "\\u\x7b" ++ hexOf c.toNat ++ "\x7d"
  else String.singleton c

def quoted (s : String) : String :=
  "\"" ++ String.join (s.toList.map escapeChar) ++ "\""

end ObjectPersistence.Text
