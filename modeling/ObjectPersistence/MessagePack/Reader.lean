import ObjectPersistence.MessagePack.Writer
import ObjectPersistence.Binary64.Shortest
import ObjectPersistence.Text.Escaped

/-! # Reading values, contents and operations

The reader accepts more than the writer produces, and refuses the rest with a precise
reason. A variant is read from its bare name or from a one-entry map whose key names it (by
name or by index); a record from an array of its fields in order or from a map keyed by field
names or indices, where unknown keys are skipped, a repeated key is refused and a missing one
reported. Integers are accepted in any width that holds the target, byte strings where bytes
are wanted, and a byte string also where a sequence of small integers is wanted. Bytes after
the first complete item are not looked at. -/

namespace ObjectPersistence.MessagePack

/-! ## Text -/

/-- Where a byte sequence stops being UTF-8: the length of the valid prefix and the length
of the offending sequence, `none` when the bytes end inside a sequence. Valid text gives
`none` overall. -/
def utf8Fault : List UInt8 → Nat → Option (Nat × Option Nat)
  | [], _ => none
  | b :: rest, i =>
    let x := b.toNat
    let cont (c : UInt8) : Bool := 0x80 ≤ c.toNat && c.toNat ≤ 0xbf
    let within (c : UInt8) (lo hi : Nat) : Bool := lo ≤ c.toNat && c.toNat ≤ hi
    if x < 0x80 then utf8Fault rest (i + 1)
    else if 0xc2 ≤ x && x ≤ 0xdf then
      match rest with
      | [] => some (i, none)
      | c :: r => if cont c then utf8Fault r (i + 2) else some (i, some 1)
    else if 0xe0 ≤ x && x ≤ 0xef then
      let second (c : UInt8) : Bool :=
        if x = 0xe0 then within c 0xa0 0xbf else if x = 0xed then within c 0x80 0x9f else cont c
      match rest with
      | [] => some (i, none)
      | c :: r =>
        if !second c then some (i, some 1)
        else match r with
          | [] => some (i, none)
          | d :: r' => if cont d then utf8Fault r' (i + 3) else some (i, some 2)
    else if 0xf0 ≤ x && x ≤ 0xf4 then
      let second (c : UInt8) : Bool :=
        if x = 0xf0 then within c 0x90 0xbf else if x = 0xf4 then within c 0x80 0x8f else cont c
      match rest with
      | [] => some (i, none)
      | c :: r =>
        if !second c then some (i, some 1)
        else match r with
          | [] => some (i, none)
          | d :: r' =>
            if !cont d then some (i, some 2)
            else match r' with
              | [] => some (i, none)
              | e :: r'' => if cont e then utf8Fault r'' (i + 4) else some (i, some 3)
    else some (i, some 1)

def textOf (bytes : List UInt8) : String :=
  (String.fromUTF8? (ByteArray.mk bytes.toArray)).getD ""

def lossyText (bytes : List UInt8) : Nat → String
  | 0 => ""
  | fuel + 1 =>
    match utf8Fault bytes 0 with
    | none => textOf bytes
    | some (i, none) => textOf (bytes.take i) ++ "�"
    | some (i, some l) => textOf (bytes.take i) ++ "�" ++ lossyText (bytes.drop (i + l)) fuel

/-! ## Errors -/

/-- What the reader found where it wanted something else. -/
inductive Unexpected where
  | bool (b : Bool)
  | unsigned (n : Nat)
  | signed (n : Int)
  | float (bits : UInt64)
  | str (s : String)
  | bytes
  | unit
  | seq
  | map
  | newtypeStruct
  | unitVariant
  deriving DecidableEq, Repr

/-- How a diagnostic names what was found. -/
def Unexpected.text : Unexpected → String
  | .bool b => "boolean `" ++ toString b ++ "`"
  | .unsigned n => "integer `" ++ toString n ++ "`"
  | .signed n => "integer `" ++ toString n ++ "`"
  | .float bits =>
    let t := Binary64.plainText bits
    let t := if !Binary64.isSpecial bits && !t.contains '.' then t ++ ".0" else t
    "floating point `" ++ t ++ "`"
  | .str s => "string " ++ Text.quoted s
  | .bytes => "byte array"
  | .unit => "unit value"
  | .seq => "sequence"
  | .map => "map"
  | .newtypeStruct => "newtype struct"
  | .unitVariant => "unit variant"

/-- Why bytes could not be read. -/
inductive DecodeError where
  /-- The bytes ended where an item should start. -/
  | markerEnd
  /-- The bytes ended inside a length or a number. -/
  | dataEnd
  /-- The bytes ended inside a string or a byte string. -/
  | sliceEnd
  | wrongMarker (m : Marker)
  | lengthMismatch (n : Nat)
  | invalidUtf8 (validUpTo : Nat) (faultLength : Option Nat)
  | invalidType (found : Unexpected) (expected : String)
  | invalidValue (found : Unexpected) (expected : String)
  | invalidLength (n : Nat) (expected : String)
  | unknownVariant (name : String) (expected : List String)
  | missingField (name : String)
  | duplicateField (name : String)
  | identifierLength (n : Nat)
  | tooDeep
  deriving DecidableEq, Repr

def oneOf : List String → String
  | [] => "there are no variants"
  | [a] => "`" ++ a ++ "`"
  | [a, b] => "`" ++ a ++ "` or `" ++ b ++ "`"
  | names => "one of " ++ ", ".intercalate (names.map fun n => "`" ++ n ++ "`")

/-- The diagnostic text of a decoding error. -/
def DecodeError.message : DecodeError → String
  | .markerEnd => "IO error while reading marker: failed to fill whole buffer"
  | .dataEnd => "IO error while reading data: failed to fill whole buffer"
  | .sliceEnd => "IO error while reading data: unexpected end of file"
  | .wrongMarker m => "wrong msgpack marker " ++ m.label
  | .lengthMismatch n => "array had incorrect length, expected " ++ toString n
  | .invalidUtf8 i none =>
    "string found to be invalid utf8: incomplete utf-8 byte sequence from index " ++ toString i
  | .invalidUtf8 i (some l) =>
    "string found to be invalid utf8: invalid utf-8 sequence of " ++ toString l ++
      " bytes from index " ++ toString i
  | .invalidType u e => "invalid type: " ++ u.text ++ ", expected " ++ e
  | .invalidValue u e => "invalid value: " ++ u.text ++ ", expected " ++ e
  | .invalidLength n e => "invalid length " ++ toString n ++ ", expected " ++ e
  | .unknownVariant v [] => "unknown variant `" ++ v ++ "`, there are no variants"
  | .unknownVariant v names => "unknown variant `" ++ v ++ "`, expected " ++ oneOf names
  | .missingField f => "missing field `" ++ f ++ "`"
  | .duplicateField f => "duplicate field `" ++ f ++ "`"
  | .identifierLength n =>
    "UUID parsing failed: invalid length: expected 16 bytes, found " ++ toString n
  | .tooDeep => "depth limit exceeded"

/-! ## Items -/

abbrev Read (α : Type) := List UInt8 → Except DecodeError (α × List UInt8)

/-- The head of an item: scalars are complete, arrays and maps give their lengths, an
extension its data length. -/
inductive Head where
  | nil
  | bool (b : Bool)
  | uint (n : Nat)
  | sint (n : Int)
  | float (bits : UInt64)
  | str (bytes : List UInt8)
  | bin (bytes : List UInt8)
  | array (len : Nat)
  | map (len : Nat)
  | ext (len : Nat)
  deriving Repr

def beValue (bytes : List UInt8) : Nat :=
  bytes.foldl (fun acc b => acc * 256 + b.toNat) 0

def takeData (k : Nat) : Read (List UInt8) := fun bs =>
  if bs.length < k then .error .dataEnd else .ok (bs.take k, bs.drop k)

def takeSlice (k : Nat) : Read (List UInt8) := fun bs =>
  if bs.length < k then .error .sliceEnd else .ok (bs.take k, bs.drop k)

def readUnsigned (k : Nat) : Read Nat := fun bs =>
  (takeData k bs).map fun (d, r) => (beValue d, r)

def readSigned (k : Nat) : Read Int := fun bs =>
  (takeData k bs).map fun (d, r) =>
    let v := beValue d
    (if v ≥ Nat.pow 2 (8 * k - 1) then (v : Int) - Nat.pow 2 (8 * k) else v, r)

/-- The double with the value of a single-precision number. -/
def widenSingle (bits : Nat) : UInt64 :=
  let neg := bits ≥ Nat.pow 2 31
  let expField := (bits / Nat.pow 2 23) % 256
  let frac := bits % Nat.pow 2 23
  if expField = 255 then
    let quiet := if frac = 0 then 0 else Nat.pow 2 51
    Binary64.withSign neg (2047 * Nat.pow 2 52 + (frac * Nat.pow 2 29 ||| quiet))
  else if expField = 0 then Binary64.ofRatio neg frac (Nat.pow 2 149)
  else Binary64.withSign neg ((expField + 896) * Nat.pow 2 52 + frac * Nat.pow 2 29)

def readSized (k : Nat) : Read (List UInt8) := fun bs => do
  let (len, r) ← readUnsigned k bs
  takeSlice len r

/-- Reads the head of the next item. -/
def readHead : Read Head
  | [] => .error .markerEnd
  | b :: rest =>
    let with_ {α} (read : Read α) (f : α → Head) : Except DecodeError (Head × List UInt8) :=
      (read rest).map fun (a, r) => (f a, r)
    match Marker.ofByte b with
    | .fixPos n => .ok (.uint n, rest)
    | .fixNeg n => .ok (.sint n, rest)
    | .null => .ok (.nil, rest)
    | .true => .ok (.bool true, rest)
    | .false => .ok (.bool false, rest)
    | .u8 => with_ (readUnsigned 1) .uint
    | .u16 => with_ (readUnsigned 2) .uint
    | .u32 => with_ (readUnsigned 4) .uint
    | .u64 => with_ (readUnsigned 8) .uint
    | .i8 => with_ (readSigned 1) .sint
    | .i16 => with_ (readSigned 2) .sint
    | .i32 => with_ (readSigned 4) .sint
    | .i64 => with_ (readSigned 8) .sint
    | .f32 => with_ (readUnsigned 4) fun n => .float (widenSingle n)
    | .f64 => with_ (readUnsigned 8) fun n => .float n.toUInt64
    | .fixStr n => with_ (takeSlice n) .str
    | .str8 => with_ (readSized 1) .str
    | .str16 => with_ (readSized 2) .str
    | .str32 => with_ (readSized 4) .str
    | .bin8 => with_ (readSized 1) .bin
    | .bin16 => with_ (readSized 2) .bin
    | .bin32 => with_ (readSized 4) .bin
    | .fixArray n => .ok (.array n, rest)
    | .array16 => with_ (readUnsigned 2) .array
    | .array32 => with_ (readUnsigned 4) .array
    | .fixMap n => .ok (.map n, rest)
    | .map16 => with_ (readUnsigned 2) .map
    | .map32 => with_ (readUnsigned 4) .map
    | .fixExt1 => .ok (.ext 1, rest)
    | .fixExt2 => .ok (.ext 2, rest)
    | .fixExt4 => .ok (.ext 4, rest)
    | .fixExt8 => .ok (.ext 8, rest)
    | .fixExt16 => .ok (.ext 16, rest)
    | .ext8 => with_ (readUnsigned 1) .ext
    | .ext16 => with_ (readUnsigned 2) .ext
    | .ext32 => with_ (readUnsigned 4) .ext
    | .reserved => .error (.wrongMarker .reserved)

/-- The refusal of an item that a reader of `expected` does not take. A string that is no
UTF-8 is refused for its encoding. -/
def refuse (h : Head) (expected : String) : DecodeError :=
  match h with
  | .nil => .invalidType .unit expected
  | .bool b => .invalidType (.bool b) expected
  | .uint n => .invalidType (.unsigned n) expected
  | .sint n => .invalidType (.signed n) expected
  | .float b => .invalidType (.float b) expected
  | .str bytes =>
    match utf8Fault bytes 0 with
    | none => .invalidType (.str (textOf bytes)) expected
    | some (i, l) => .invalidUtf8 i l
  | .bin _ => .invalidType .bytes expected
  | .array _ => .invalidType .seq expected
  | .map _ => .invalidType .map expected
  | .ext _ => .invalidType .newtypeStruct expected

def depthLimit : Nat := 1024

/-- Skips whole items. `pending` lists, innermost first, how many items each open container
still holds, and `depth` is the nesting depth of the innermost one; `fuel` bounds the steps,
each of which reads a head or closes a container. -/
def skipNested : Nat → Nat → List Nat → Read Unit
  | _, _, [], bs => .ok ((), bs)
  | 0, _, _ :: _, _ => .error .tooDeep
  | fuel + 1, depth, 0 :: outer, bs => skipNested fuel (depth - 1) outer bs
  | fuel + 1, depth, (left + 1) :: outer, bs => do
    let (h, r) ← readHead bs
    let enter (items : Nat) (r : List UInt8) : Except DecodeError (Unit × List UInt8) :=
      if depth + 1 ≥ depthLimit then .error .tooDeep
      else skipNested fuel (depth + 1) (items :: left :: outer) r
    match h with
    | .array n => enter n r
    | .map n => enter (2 * n) r
    | .ext len =>
      if depth + 1 ≥ depthLimit then .error .tooDeep
      else do
        let (_, r) ← takeData 1 r
        let (_, r) ← takeSlice len r
        skipNested fuel depth (left :: outer) r
    | _ => skipNested fuel depth (left :: outer) r

def skipItem (depth : Nat) : Read Unit := fun bs =>
  skipNested (2 * bs.length + 2) depth [1] bs

/-! ## Scalars -/

/-- Reads the head of an item that a reader of a number or of a truth value looks into; any
other item is refused by its marker alone, before its length or contents are read. -/
def readScalarHead : Read Head
  | [] => .error .markerEnd
  | bs@(b :: _) =>
    let m := Marker.ofByte b
    if m.isScalar then readHead bs else .error (.wrongMarker m)

def readInt64 : Read Int := fun bs => do
  let (h, r) ← readScalarHead bs
  match h with
  | .uint n => if n < Nat.pow 2 63 then .ok (n, r) else .error (.invalidValue (.unsigned n) "i64")
  | .sint n => .ok (n, r)
  | h => .error (refuse h "i64")

def readCount : Read Nat := fun bs => do
  let (h, r) ← readScalarHead bs
  match h with
  | .uint n => .ok (n, r)
  | .sint n => if 0 ≤ n then .ok (n.toNat, r) else .error (.invalidValue (.signed n) "usize")
  | h => .error (refuse h "usize")

def readByte : Read UInt8 := fun bs => do
  let (h, r) ← readScalarHead bs
  match h with
  | .uint n => if n < 256 then .ok (n.toUInt8, r) else .error (.invalidValue (.unsigned n) "u8")
  | .sint n =>
    if 0 ≤ n ∧ n < 256 then .ok (n.toNat.toUInt8, r) else .error (.invalidValue (.signed n) "u8")
  | h => .error (refuse h "u8")

def readDouble : Read UInt64 := fun bs => do
  let (h, r) ← readScalarHead bs
  match h with
  | .uint n => .ok (Binary64.ofInt n, r)
  | .sint n => .ok (Binary64.ofInt n, r)
  | .float b => .ok (b, r)
  | h => .error (refuse h "f64")

def readBool : Read Bool := fun bs => do
  let (h, r) ← readScalarHead bs
  match h with
  | .bool b => .ok (b, r)
  | h => .error (refuse h "a boolean")

/-- A text, from a string or from a byte string holding UTF-8. -/
def readText : Read String := fun bs => do
  let (h, r) ← readHead bs
  match h with
  | .str bytes =>
    match utf8Fault bytes 0 with
    | none => .ok (textOf bytes, r)
    | some (i, l) => .error (.invalidUtf8 i l)
  | .bin bytes =>
    match utf8Fault bytes 0 with
    | none => .ok (textOf bytes, r)
    | some _ => .error (.invalidValue .bytes "a string")
  | h => .error (refuse h "a string")

/-- A 128-bit identifier: sixteen bytes. -/
def readIdentifier : Read Nat := fun bs => do
  let (h, r) ← readHead bs
  let ofBytes (bytes : List UInt8) : Except DecodeError (Nat × List UInt8) :=
    if bytes.length = 16 then .ok (beValue bytes, r) else .error (.identifierLength bytes.length)
  match h with
  | .bin bytes => ofBytes bytes
  | .str bytes =>
    match utf8Fault bytes 0 with
    | none => .error (.invalidType (.str (textOf bytes)) "a 16 byte array")
    | some (i, l) => if bytes.length = 16 then ofBytes bytes else .error (.invalidUtf8 i l)
  | h => .error (refuse h "a 16 byte array")

def readMany {α} (read : Read α) : Nat → Read (List α)
  | 0, bs => .ok ([], bs)
  | count + 1, bs => do
    let (a, r) ← read bs
    let (rest, r) ← readMany read count r
    .ok (a :: rest, r)

/-- What a reader makes of one byte of a byte string read as a sequence: the byte stands
alone as a small unsigned integer, which a reader of a number takes and any other reader
finds where it wanted something else. -/
def byteAsItem {α} (read : Read α) (b : UInt8) : Except DecodeError α :=
  (read (writeUInt b.toNat)).map (·.1)

/-- The refusal of a lone byte by a reader of an enumeration, a wrapper, a record or a tuple
called `expected`: such a reader does not look into the integer. -/
def refuseByte {α} (expected : String) (b : UInt8) : Except DecodeError α :=
  .error (.invalidType (.unsigned b.toNat) expected)

/-- A sequence: an array of items, or a byte string read as small integers, each of which
`ofByte` must take. -/
def readSeq {α} (read : Read α) (ofByte : UInt8 → Except DecodeError α) : Read (List α) :=
  fun bs => do
    let (h, r) ← readHead bs
    match h with
    | .array n => readMany read n r
    | .bin bytes => (bytes.mapM ofByte).map (·, r)
    | h => .error (refuse h "a sequence")

/-! ## Variants and records -/

/-- The index of a variant, named by its name or by its index. -/
def readVariantName (names : List String) : Read Nat := fun bs => do
  let (h, r) ← readHead bs
  let byBytes (bytes : List UInt8) : Except DecodeError (Nat × List UInt8) :=
    match names.findIdx? (·.toUTF8.toList == bytes) with
    | some i => .ok (i, r)
    | none => .error (.unknownVariant (lossyText bytes (bytes.length + 1)) names)
  match h with
  | .uint n =>
    if n < names.length then .ok (n, r)
    else .error (.invalidValue (.unsigned n)
      ("variant index 0 <= i < " ++ toString names.length))
  | .str bytes =>
    match utf8Fault bytes 0 with
    | none => byBytes bytes
    | some (i, l) => .error (.invalidUtf8 i l)
  | .bin bytes => byBytes bytes
  | h => .error (refuse h "variant identifier")

/-- A variant's index, and whether it was written as a one-entry map (so that its data
follows) rather than by its bare name. -/
def readVariant (names : List String) : Read (Nat × Bool)
  | [] => .error .markerEnd
  | bs@(b :: rest) =>
    let inMap (len : Nat) (r : List UInt8) : Except DecodeError ((Nat × Bool) × List UInt8) :=
      if len = 1 then (readVariantName names r).map fun (i, r) => ((i, true), r)
      else .error (.lengthMismatch len)
    match Marker.ofByte b with
    | .fixMap n => inMap n rest
    | .map16 => do let (n, r) ← readUnsigned 2 rest; inMap n r
    | .map32 => do let (n, r) ← readUnsigned 4 rest; inMap n r
    | _ => (readVariantName names bs).map fun (i, r) => ((i, false), r)

def readUnitBody (inMap : Bool) : Read Unit := fun bs =>
  if !inMap then .ok ((), bs)
  else match bs with
    | [] => .error .markerEnd
    | b :: r => if b = 0xc0 then .ok ((), r) else .error (.wrongMarker (Marker.ofByte b))

def readBody {α} (inMap : Bool) (shape : String) (read : Read α) : Read α := fun bs =>
  if inMap then read bs else .error (.invalidType .unitVariant shape)

/-- One field of a record: its name, its reader, and what it makes of a lone byte when the
record comes as a byte string. -/
structure FieldReader (α : Type) where
  name : String
  read : Read α
  ofByte : UInt8 → Except DecodeError α

/-- The fields of a record called `expected` (for instance `struct Operation`) at nesting
depth `depth`, in their order: from an array of the fields, from a byte string whose bytes
stand for the fields, or from a map keyed by field names or indices. Bytes beyond the fields
are not looked at. -/
def readRecord {α} (expected : String) (depth : Nat) (fields : List (FieldReader α)) :
    Read (List α) :=
  fun bs => do
    let (h, r) ← readHead bs
    let count := fields.length
    let short (i : Nat) : DecodeError :=
      .invalidLength i (expected ++ " with " ++ toString count ++ " elements")
    match h with
    | .array n =>
      let rec go : List (FieldReader α) → Nat → List UInt8 → Except DecodeError (List α × List UInt8)
        | [], _, r => if n > count then .error (.lengthMismatch count) else .ok ([], r)
        | f :: more, i, r =>
          if i < n then do
            let (a, r) ← f.read r
            let (as, r) ← go more (i + 1) r
            .ok (a :: as, r)
          else .error (short i)
      go fields 0 r
    | .bin bytes =>
      let rec fromBytes : List (FieldReader α) → List UInt8 → Nat → Except DecodeError (List α)
        | [], _, _ => .ok []
        | _ :: _, [], i => .error (short i)
        | f :: more, b :: rest, i => do
          let a ← f.ofByte b
          .ok (a :: (← fromBytes more rest (i + 1)))
      (fromBytes fields bytes 0).map (·, r)
    | .map n =>
      let key (bs : List UInt8) : Except DecodeError (Option Nat × List UInt8) := do
        let (h, r) ← readHead bs
        let byBytes (bytes : List UInt8) := (fields.findIdx? (·.name.toUTF8.toList == bytes), r)
        match h with
        | .uint i => .ok (if i < count then some i else none, r)
        | .str bytes => .ok (byBytes bytes)
        | .bin bytes => .ok (byBytes bytes)
        | h => .error (refuse h "field identifier")
      let rec entries : Nat → List (Option α) → List UInt8 →
          Except DecodeError (List (Option α) × List UInt8)
        | 0, got, r => .ok (got, r)
        | left + 1, got, r => do
          let (k, r) ← key r
          match k with
          | none => do
            let ((), r) ← skipItem depth r
            entries left got r
          | some i =>
            match got.getD i none, fields[i]? with
            | some _, some f => .error (.duplicateField f.name)
            | _, some f => do
              let (a, r) ← f.read r
              entries left (got.set i (some a)) r
            | _, none => entries left got r
      let (got, r) ← entries n (List.replicate count none) r
      let rec collect : List (FieldReader α) → List (Option α) → Except DecodeError (List α)
        | [], _ => .ok []
        | f :: more, a :: as => do
          match a with
          | some a => .ok (a :: (← collect more as))
          | none => .error (.missingField f.name)
        | f :: _, [] => .error (.missingField f.name)
      (collect fields got).map (·, r)
    | h => .error (refuse h expected)

/-! ## The library's data -/

def valueNames : List String :=
  ["Null", "Text", "Integer", "Float", "Boolean", "Timestamp", "Ref", "Bytes"]

/-- A value. -/
def readValue : Read Value := fun bs => do
  let ((i, inMap), r) ← readVariant valueNames bs
  let body {α} (read : Read α) (f : α → Value) := (readBody inMap "newtype variant" read r).map
    fun (a, r) => (f a, r)
  match i with
  | 0 => (readUnitBody inMap r).map fun (_, r) => (.null, r)
  | 1 => body readText .text
  | 2 => body readInt64 .integer
  | 3 => body readDouble .float
  | 4 => body readBool .boolean
  | 5 => body readInt64 .timestamp
  | 6 => body readIdentifier fun n => .ref ⟨n⟩
  | _ => body (readSeq readByte .ok) .bytes

/-- A map entry: an array of a key and a value, or a byte string standing for one, whose
first byte no reader of a value takes. -/
def readEntry : Read (Value × Value) := fun bs => do
  let (h, r) ← readHead bs
  let expected := "a tuple of size 2"
  match h with
  | .array n =>
    if n = 0 then .error (.invalidLength 0 expected)
    else do
      let (k, r) ← readValue r
      if n = 1 then .error (.invalidLength 1 expected)
      else do
        let (v, r) ← readValue r
        if n > 2 then .error (.lengthMismatch 2) else .ok ((k, v), r)
  | .bin [] => .error (.invalidLength 0 expected)
  | .bin (b :: _) => refuseByte "enum Value" b
  | h => .error (refuse h expected)

/-- A field content. -/
def readFieldData : Read FieldData := fun bs => do
  let ((i, inMap), r) ← readVariant ["Scalar", "Collection", "Map"] bs
  let body {α} (read : Read α) (f : α → FieldData) :=
    (readBody inMap "newtype variant" read r).map fun (a, r) => (f a, r)
  match i with
  | 0 => body readValue FieldData.scalar
  | 1 => body (readSeq readValue (refuseByte "enum Value")) FieldData.collection
  | _ => body (readSeq readEntry (refuseByte "a tuple of size 2")) FieldData.map

/-- One field of an operation or of a payload, before the record is assembled. -/
inductive Part where
  | id (n : Nat)
  | kind (k : OperationKind)
  | count (n : Nat)
  | value (v : Value)
  | payload (p : Payload)
  | flag (b : Bool)
  deriving Inhabited

def part {α} (name : String) (read : Read α) (ofByte : UInt8 → Except DecodeError α)
    (f : α → Part) : FieldReader Part :=
  ⟨name, fun bs => (read bs).map fun (a, r) => (f a, r), fun b => (ofByte b).map f⟩

def readKind : Read OperationKind := fun bs => do
  let ((i, inMap), r) ← readVariant ["ElementAdd", "ElementRemove"] bs
  let ((), r) ← readUnitBody inMap r
  .ok (if i = 0 then .add else .remove, r)

/-- A payload inside a record at nesting depth `depth`. -/
def readPayload (depth : Nat) : Read Payload := fun bs => do
  let ((i, inMap), r) ← readVariant ["Element", "Indexed", "Entry", "Key"] bs
  let record (name : String) (fields : List (FieldReader Part)) (f : List Part → Payload) :=
    (readBody inMap "struct variant"
      (readRecord ("struct variant OperationPayload::" ++ name) (depth + 1) fields) r).map
        fun (ps, r) => (f ps, r)
  let indexed : List Part → Payload
    | [.count n, .value v] => .indexed n v
    | _ => default
  let entry : List Part → Payload
    | [.value k, .value v] => .entry k v
    | _ => default
  let value (name : String) := part name readValue (refuseByte "enum Value") Part.value
  let index := part "index" readCount (byteAsItem readCount) Part.count
  match i with
  | 0 => (readBody inMap "newtype variant" readValue r).map fun (v, r) => (Payload.element v, r)
  | 1 => record "Indexed" [index, value "element"] indexed
  | 2 => record "Entry" [value "key", value "value"] entry
  | _ => (readBody inMap "newtype variant" readValue r).map fun (v, r) => (Payload.key v, r)

/-- An operation. -/
def readOperation : Read Operation := fun bs => do
  let (ps, r) ← readRecord "struct Operation" 1
    [part "op_id" readIdentifier (refuseByte "tuple struct OpId") .id,
     part "kind" readKind (refuseByte "enum OperationKind") .kind,
     part "owner" readIdentifier (refuseByte "tuple struct ObjectId") .id,
     part "field" readCount (byteAsItem readCount) .count,
     part "payload" (readPayload 1) (refuseByte "enum OperationPayload") .payload,
     part "allow_cascade" readBool (byteAsItem readBool) .flag] bs
  match ps with
  | [.id opId, .kind kind, .id owner, .count field, .payload payload, .flag allowCascade] =>
    .ok ({ opId, kind, owner := ⟨owner⟩, field, payload, allowCascade }, r)
  | _ => .error .tooDeep

def decodeValue (bytes : List UInt8) : Except DecodeError Value :=
  (readValue bytes).map (·.1)

def decodeFieldData (bytes : List UInt8) : Except DecodeError FieldData :=
  (readFieldData bytes).map (·.1)

def decodeOperation (bytes : List UInt8) : Except DecodeError Operation :=
  (readOperation bytes).map (·.1)

end ObjectPersistence.MessagePack
