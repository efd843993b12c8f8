import ObjectPersistence.MessagePack.Format
import ObjectPersistence.Value.FieldData
import ObjectPersistence.Operation

/-! # Writing values, contents and operations

The wire form of the library's data. A variant without data is written as its name; a
variant with data as a map of one entry from its name to the data; a record as an array of
its fields in order. An identifier is a byte string of sixteen bytes, a byte value an array
of small integers, a float always the nine bytes of a double. -/

namespace ObjectPersistence.MessagePack

def tagged (name : String) (body : List UInt8) : List UInt8 :=
  mapHeader 1 ++ writeStr name ++ body

def writeId (n : Nat) : List UInt8 := writeBin (beBytes n 16)

/-- The wire form of a value. -/
def writeValue : Value → List UInt8
  | .null => writeStr "Null"
  | .text s => tagged "Text" (writeStr s)
  | .integer n => tagged "Integer" (writeInt n)
  | .float b => tagged "Float" (writeF64 b)
  | .boolean b => tagged "Boolean" (writeBool b)
  | .timestamp t => tagged "Timestamp" (writeInt t)
  | .ref id => tagged "Ref" (writeId id.val)
  | .bytes bs => tagged "Bytes" (arrayHeader bs.length ++ bs.flatMap fun b => writeUInt b.toNat)

def writeFieldData : FieldData → List UInt8
  | .scalar v => tagged "Scalar" (writeValue v)
  | .collection vs => tagged "Collection" (arrayHeader vs.length ++ vs.flatMap writeValue)
  | .map es => tagged "Map" (arrayHeader es.length ++
      es.flatMap fun (k, v) => arrayHeader 2 ++ writeValue k ++ writeValue v)

def writePayload : Payload → List UInt8
  | .element v => tagged "Element" (writeValue v)
  | .indexed i v => tagged "Indexed" (arrayHeader 2 ++ writeUInt i ++ writeValue v)
  | .entry k v => tagged "Entry" (arrayHeader 2 ++ writeValue k ++ writeValue v)
  | .key k => tagged "Key" (writeValue k)

def kindName : OperationKind → String
  | .add => "ElementAdd"
  | .remove => "ElementRemove"

def writeOperation (op : Operation) : List UInt8 :=
  arrayHeader 6 ++ writeId op.opId ++ writeStr (kindName op.kind) ++ writeId op.owner.val ++
    writeUInt op.field ++ writePayload op.payload ++ writeBool op.allowCascade

end ObjectPersistence.MessagePack
