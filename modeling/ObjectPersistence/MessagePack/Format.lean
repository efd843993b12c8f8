/-! # The MessagePack format

Markers and headers of MessagePack. Every item starts with a marker byte; small integers,
short strings, short arrays and small maps are packed into the marker itself, longer ones
carry a big-endian length of one, two or four bytes. Writers here always choose the
shortest form: a non-negative integer is written unsigned, a negative one in the narrowest
signed width that holds it. -/

namespace ObjectPersistence.MessagePack

/-- The kind of item a marker byte announces. -/
inductive Marker where
  | fixPos (n : Nat)
  | fixNeg (n : Int)
  | null
  | false
  | true
  | u8 | u16 | u32 | u64
  | i8 | i16 | i32 | i64
  | f32 | f64
  | fixStr (len : Nat)
  | str8 | str16 | str32
  | bin8 | bin16 | bin32
  | fixArray (len : Nat)
  | array16 | array32
  | fixMap (len : Nat)
  | map16 | map32
  | fixExt1 | fixExt2 | fixExt4 | fixExt8 | fixExt16
  | ext8 | ext16 | ext32
  | reserved
  deriving DecidableEq, Repr, Inhabited

namespace Marker

/-- The marker a byte stands for. -/
def ofByte (b : UInt8) : Marker :=
  let n := b.toNat
  if n < 0x80 then fixPos n
  else if n < 0x90 then fixMap (n - 0x80)
  else if n < 0xa0 then fixArray (n - 0x90)
  else if n < 0xc0 then fixStr (n - 0xa0)
  else if n ≥ 0xe0 then fixNeg ((n : Int) - 256)
  else match n with
    | 0xc0 => null | 0xc2 => false | 0xc3 => true
    | 0xc4 => bin8 | 0xc5 => bin16 | 0xc6 => bin32
    | 0xc7 => ext8 | 0xc8 => ext16 | 0xc9 => ext32
    | 0xca => f32 | 0xcb => f64
    | 0xcc => u8 | 0xcd => u16 | 0xce => u32 | 0xcf => u64
    | 0xd0 => i8 | 0xd1 => i16 | 0xd2 => i32 | 0xd3 => i64
    | 0xd4 => fixExt1 | 0xd5 => fixExt2 | 0xd6 => fixExt4 | 0xd7 => fixExt8
    | 0xd8 => fixExt16
    | 0xd9 => str8 | 0xda => str16 | 0xdb => str32
    | 0xdc => array16 | 0xdd => array32
    | 0xde => map16 | 0xdf => map32
    | _ => reserved

/-- The marker's name in a diagnostic. -/
def label : Marker → String
  | fixPos n => "FixPos(" ++ toString n ++ ")"
  | fixNeg n => "FixNeg(" ++ toString n ++ ")"
  | null => "Null" | false => "False" | true => "True"
  | u8 => "U8" | u16 => "U16" | u32 => "U32" | u64 => "U64"
  | i8 => "I8" | i16 => "I16" | i32 => "I32" | i64 => "I64"
  | f32 => "F32" | f64 => "F64"
  | fixStr n => "FixStr(" ++ toString n ++ ")"
  | str8 => "Str8" | str16 => "Str16" | str32 => "Str32"
  | bin8 => "Bin8" | bin16 => "Bin16" | bin32 => "Bin32"
  | fixArray n => "FixArray(" ++ toString n ++ ")"
  | array16 => "Array16" | array32 => "Array32"
  | fixMap n => "FixMap(" ++ toString n ++ ")"
  | map16 => "Map16" | map32 => "Map32"
  | fixExt1 => "FixExt1" | fixExt2 => "FixExt2" | fixExt4 => "FixExt4"
  | fixExt8 => "FixExt8" | fixExt16 => "FixExt16"
  | ext8 => "Ext8" | ext16 => "Ext16" | ext32 => "Ext32"
  | reserved => "Reserved"

/-- Whether the marker starts nil, a truth value or a number: the items a reader of a number
or of a truth value looks into. -/
def isScalar : Marker → Bool
  | fixPos _ | fixNeg _ | null | false | true => Bool.true
  | u8 | u16 | u32 | u64 | i8 | i16 | i32 | i64 | f32 | f64 => Bool.true
  | _ => Bool.false

end Marker

def beBytes (n : Nat) : Nat → List UInt8
  | 0 => []
  | count + 1 => beBytes (n / 256) count ++ [(n % 256).toUInt8]

def writeUInt (n : Nat) : List UInt8 :=
  if n < 0x80 then [n.toUInt8]
  else if n < 0x100 then 0xcc :: beBytes n 1
  else if n < 0x10000 then 0xcd :: beBytes n 2
  else if n < 0x100000000 then 0xce :: beBytes n 4
  else 0xcf :: beBytes n 8

def writeInt (n : Int) : List UInt8 :=
  if 0 ≤ n then writeUInt n.toNat
  else if -32 ≤ n then [(256 + n).toNat.toUInt8]
  else if -128 ≤ n then 0xd0 :: beBytes (Nat.pow 2 8 + n).toNat 1
  else if -32768 ≤ n then 0xd1 :: beBytes (Nat.pow 2 16 + n).toNat 2
  else if -2147483648 ≤ n then 0xd2 :: beBytes (Nat.pow 2 32 + n).toNat 4
  else 0xd3 :: beBytes (Nat.pow 2 64 + n).toNat 8

def strHeader (len : Nat) : List UInt8 :=
  if len < 32 then [(0xa0 + len).toUInt8]
  else if len < 0x100 then 0xd9 :: beBytes len 1
  else if len < 0x10000 then 0xda :: beBytes len 2
  else 0xdb :: beBytes len 4

def writeStr (s : String) : List UInt8 :=
  let bytes := s.toUTF8.toList
  strHeader bytes.length ++ bytes

def writeBin (bytes : List UInt8) : List UInt8 :=
  let len := bytes.length
  (if len < 0x100 then 0xc4 :: beBytes len 1
   else if len < 0x10000 then 0xc5 :: beBytes len 2
   else 0xc6 :: beBytes len 4) ++ bytes

def arrayHeader (len : Nat) : List UInt8 :=
  if len < 16 then [(0x90 + len).toUInt8]
  else if len < 0x10000 then 0xdc :: beBytes len 2
  else 0xdd :: beBytes len 4

def mapHeader (len : Nat) : List UInt8 :=
  if len < 16 then [(0x80 + len).toUInt8]
  else if len < 0x10000 then 0xde :: beBytes len 2
  else 0xdf :: beBytes len 4

def writeF64 (bits : UInt64) : List UInt8 := 0xcb :: beBytes bits.toNat 8

def writeBool (b : Bool) : List UInt8 := [if b then 0xc3 else 0xc2]

end ObjectPersistence.MessagePack
