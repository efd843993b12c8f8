import Mathlib
import ObjectPersistence.Proofs.Utf8Encoding

/-! # Reading back what is written

The wire form of values, field contents and operations reads back as what was written, float
bits included, so two values have the same wire form exactly when they are equal: the datastore
compares encoded elements and keys in place of the values.

The statements hold over what the wire form can carry: integers and timestamps of 64 bits,
identifiers of 128, counts and indices of 64, and strings, byte strings and sequences shorter than
`2 ^ 32`, the longest a header can announce. Each reader is shown to consume exactly what its
writer produced, whatever follows it, so the proofs for records and sequences chain the readers
of their parts. -/

namespace ObjectPersistence

/-! ### What the wire form carries -/

/-- A value the wire form can carry: a 64-bit integer or timestamp, a 128-bit identifier, a
string or byte string shorter than `2 ^ 32` bytes. -/
def Value.Encodable : Value → Prop
  | .text s => s.utf8ByteSize < 2 ^ 32
  | .integer n | .timestamp n => -2 ^ 63 ≤ n ∧ n < 2 ^ 63
  | .ref id => id.val < 2 ^ 128
  | .bytes bs => bs.length < 2 ^ 32
  | .null | .float _ | .boolean _ => True

instance : DecidablePred Value.Encodable
  | .text s => inferInstanceAs (Decidable (s.utf8ByteSize < 2 ^ 32))
  | .integer n | .timestamp n => inferInstanceAs (Decidable (-2 ^ 63 ≤ n ∧ n < 2 ^ 63))
  | .ref id => inferInstanceAs (Decidable (id.val < 2 ^ 128))
  | .bytes bs => inferInstanceAs (Decidable (bs.length < 2 ^ 32))
  | .null | .float _ | .boolean _ => isTrue trivial

/-- A content the wire form can carry: its values can be carried and its sequence is shorter
than `2 ^ 32`. -/
def FieldData.Encodable : FieldData → Prop
  | .scalar v => v.Encodable
  | .collection vs => vs.length < 2 ^ 32 ∧ ∀ v ∈ vs, v.Encodable
  | .map es => es.length < 2 ^ 32 ∧ ∀ e ∈ es, e.1.Encodable ∧ e.2.Encodable

instance : DecidablePred FieldData.Encodable
  | .scalar v => inferInstanceAs (Decidable v.Encodable)
  | .collection vs => inferInstanceAs (Decidable (vs.length < 2 ^ 32 ∧ ∀ v ∈ vs, v.Encodable))
  | .map es => inferInstanceAs
      (Decidable (es.length < 2 ^ 32 ∧ ∀ e ∈ es, e.1.Encodable ∧ e.2.Encodable))

def Payload.Encodable : Payload → Prop
  | .element v | .key v => v.Encodable
  | .indexed i v => i < 2 ^ 64 ∧ v.Encodable
  | .entry k v => k.Encodable ∧ v.Encodable

instance : DecidablePred Payload.Encodable
  | .element v | .key v => inferInstanceAs (Decidable v.Encodable)
  | .indexed i v => inferInstanceAs (Decidable (i < 2 ^ 64 ∧ v.Encodable))
  | .entry k v => inferInstanceAs (Decidable (k.Encodable ∧ v.Encodable))

def Operation.Encodable (op : Operation) : Prop :=
  op.opId < 2 ^ 128 ∧ op.owner.val < 2 ^ 128 ∧ op.field < 2 ^ 64 ∧ op.payload.Encodable

instance : DecidablePred Operation.Encodable := fun op =>
  inferInstanceAs (Decidable (op.opId < 2 ^ 128 ∧ op.owner.val < 2 ^ 128 ∧ op.field < 2 ^ 64 ∧
    op.payload.Encodable))

namespace MessagePack

/-! ### Big-endian numbers -/

theorem length_beBytes (n k : Nat) : (beBytes n k).length = k := by
  induction k generalizing n with
  | zero => rfl
  | succ k ih => simp [beBytes, ih]

theorem foldl_beValue (a : Nat) (ys : List UInt8) :
    ys.foldl (fun acc b => acc * 256 + b.toNat) a = a * 256 ^ ys.length + beValue ys := by
  induction ys generalizing a with
  | nil => simp [beValue]
  | cons y ys ih =>
    have hy : beValue (y :: ys) = y.toNat * 256 ^ ys.length + beValue ys := by
      simp only [beValue, List.foldl_cons, zero_mul, zero_add]
      exact ih y.toNat
    rw [List.foldl_cons, ih, hy, List.length_cons, pow_succ]
    ring

theorem beValue_append (xs ys : List UInt8) :
    beValue (xs ++ ys) = beValue xs * 256 ^ ys.length + beValue ys := by
  rw [beValue, List.foldl_append, foldl_beValue]
  rfl

theorem beValue_beBytes (n k : Nat) : beValue (beBytes n k) = n % 256 ^ k := by
  induction k generalizing n with
  | zero => simp [beBytes, beValue, Nat.mod_one]
  | succ k ih =>
    have hlow : beValue [(n % 256).toUInt8] = n % 256 := by simp [beValue]
    rw [beBytes, beValue_append, ih, hlow, List.length_singleton, pow_one, pow_succ',
      Nat.mod_mul]
    ring

theorem takeData_append {xs : List UInt8} {k : Nat} (h : xs.length = k) (rest : List UInt8) :
    takeData k (xs ++ rest) = .ok (xs, rest) := by
  subst h
  simp [takeData]

theorem takeSlice_append {xs : List UInt8} {k : Nat} (h : xs.length = k) (rest : List UInt8) :
    takeSlice k (xs ++ rest) = .ok (xs, rest) := by
  subst h
  simp [takeSlice]

theorem readUnsigned_beBytes (n k : Nat) (rest : List UInt8) :
    readUnsigned k (beBytes n k ++ rest) = .ok (n % 256 ^ k, rest) := by
  simp [readUnsigned, takeData_append (length_beBytes n k), Except.map, beValue_beBytes]

/-! ### Headers -/

section Markers

theorem toNat_toUInt8 {n : Nat} (h : n < 256) : n.toUInt8.toNat = n := by
  simp only [Nat.toUInt8_eq, UInt8.toNat_ofNat']
  omega

theorem ofByte_fixPos {n : Nat} (h : n < 0x80) : Marker.ofByte n.toUInt8 = .fixPos n := by
  rw [Marker.ofByte, toNat_toUInt8 (by omega), if_pos h]

theorem ofByte_fixNeg {n : Int} (h : -32 ≤ n ∧ n < 0) :
    Marker.ofByte (256 + n).toNat.toUInt8 = .fixNeg n := by
  rw [Marker.ofByte, toNat_toUInt8 (by omega), if_neg (by omega), if_neg (by omega),
    if_neg (by omega), if_neg (by omega), if_pos (by omega)]
  exact congrArg Marker.fixNeg (by omega)

theorem ofByte_fixStr {len : Nat} (h : len < 32) :
    Marker.ofByte (0xa0 + len).toUInt8 = .fixStr len := by
  rw [Marker.ofByte, toNat_toUInt8 (by omega), if_neg (by omega), if_neg (by omega),
    if_neg (by omega), if_pos (by omega)]
  exact congrArg Marker.fixStr (by omega)

theorem ofByte_fixArray {len : Nat} (h : len < 16) :
    Marker.ofByte (0x90 + len).toUInt8 = .fixArray len := by
  rw [Marker.ofByte, toNat_toUInt8 (by omega), if_neg (by omega), if_neg (by omega),
    if_pos (by omega)]
  exact congrArg Marker.fixArray (by omega)

theorem ofByte_fixMap {len : Nat} (h : len < 16) :
    Marker.ofByte (0x80 + len).toUInt8 = .fixMap len := by
  rw [Marker.ofByte, toNat_toUInt8 (by omega), if_neg (by omega), if_pos (by omega)]
  exact congrArg Marker.fixMap (by omega)

end Markers

section Headers

variable (rest : List UInt8)

theorem readHead_str {bytes : List UInt8} (h : bytes.length < 2 ^ 32) :
    readHead (strHeader bytes.length ++ bytes ++ rest) = .ok (.str bytes, rest) := by
  have h' : bytes.length < 4294967296 := h
  unfold strHeader
  split_ifs with h1 h2 h3
  · simp only [List.cons_append, List.nil_append, readHead, ofByte_fixStr h1,
      takeSlice_append (rfl : bytes.length = bytes.length), Except.map]
  · simp [readHead, Marker.ofByte, readSized, readUnsigned_beBytes, Nat.mod_eq_of_lt h2,
      takeSlice_append, Except.map, bind, Except.bind]
  · simp [readHead, Marker.ofByte, readSized, readUnsigned_beBytes, Nat.mod_eq_of_lt h3,
      takeSlice_append, Except.map, bind, Except.bind]
  · simp [readHead, Marker.ofByte, readSized, readUnsigned_beBytes, Nat.mod_eq_of_lt h',
      takeSlice_append, Except.map, bind, Except.bind]

theorem readHead_writeStr {s : String} (h : s.utf8ByteSize < 2 ^ 32) :
    readHead (writeStr s ++ rest) = .ok (.str s.toUTF8.toList, rest) := by
  rw [writeStr, List.append_assoc, ← List.append_assoc]
  exact readHead_str rest (by rw [length_toUTF8]; exact h)

theorem readHead_writeBin {bytes : List UInt8} (h : bytes.length < 2 ^ 32) :
    readHead (writeBin bytes ++ rest) = .ok (.bin bytes, rest) := by
  have h' : bytes.length < 4294967296 := h
  simp only [writeBin]
  split_ifs with h1 h2
  · simp [readHead, Marker.ofByte, readSized, readUnsigned_beBytes, Nat.mod_eq_of_lt h1,
      takeSlice_append, Except.map, bind, Except.bind]
  · simp [readHead, Marker.ofByte, readSized, readUnsigned_beBytes, Nat.mod_eq_of_lt h2,
      takeSlice_append, Except.map, bind, Except.bind]
  · simp [readHead, Marker.ofByte, readSized, readUnsigned_beBytes, Nat.mod_eq_of_lt h',
      takeSlice_append, Except.map, bind, Except.bind]

theorem readHead_arrayHeader {len : Nat} (h : len < 2 ^ 32) :
    readHead (arrayHeader len ++ rest) = .ok (.array len, rest) := by
  have h' : len < 4294967296 := h
  unfold arrayHeader
  split_ifs with h1 h2
  · simp only [List.singleton_append, readHead, ofByte_fixArray h1]
  · simp [readHead, Marker.ofByte, readUnsigned_beBytes, Nat.mod_eq_of_lt h2, Except.map]
  · simp [readHead, Marker.ofByte, readUnsigned_beBytes, Nat.mod_eq_of_lt h', Except.map]

end Headers

/-! ### Numbers, truth values, texts and identifiers -/

section Scalars

variable (rest : List UInt8)

theorem readScalarHead_writeUInt {n : Nat} (h : n < 2 ^ 64) :
    readScalarHead (writeUInt n ++ rest) = .ok (.uint n, rest) := by
  have h' : n < 18446744073709551616 := h
  unfold writeUInt
  split_ifs with h1 h2 h3 h4
  · simp only [List.singleton_append, readScalarHead, readHead, ofByte_fixPos h1,
      Marker.isScalar, if_true]
  · simp [readScalarHead, readHead, Marker.ofByte, Marker.isScalar, readUnsigned_beBytes,
      Nat.mod_eq_of_lt h2, Except.map]
  · simp [readScalarHead, readHead, Marker.ofByte, Marker.isScalar, readUnsigned_beBytes,
      Nat.mod_eq_of_lt h3, Except.map]
  · simp [readScalarHead, readHead, Marker.ofByte, Marker.isScalar, readUnsigned_beBytes,
      Nat.mod_eq_of_lt h4, Except.map]
  · simp [readScalarHead, readHead, Marker.ofByte, Marker.isScalar, readUnsigned_beBytes,
      Nat.mod_eq_of_lt h', Except.map]

theorem readSigned_beBytes {n : Int} {k P : Nat} (hk : 0 < k) (hP : P = Nat.pow 2 (8 * k))
    (hlo : -(Nat.pow 2 (8 * k - 1) : Int) ≤ n) (hneg : n < 0) :
    readSigned k (beBytes (P + n).toNat k ++ rest) = .ok (n, rest) := by
  have hhalf : P = 2 * Nat.pow 2 (8 * k - 1) := by
    rw [hP, Nat.pow_eq, Nat.pow_eq, ← pow_succ', show 8 * k - 1 + 1 = 8 * k by omega]
  have h256 : 256 ^ k = P := by
    rw [hP, Nat.pow_eq, pow_mul]
    norm_num
  have hv : (P + n).toNat % 256 ^ k = (P + n).toNat := by
    rw [h256]
    exact Nat.mod_eq_of_lt (by omega)
  simp only [readSigned, takeData_append (length_beBytes _ k), Except.map, beValue_beBytes, hv,
    ← hP]
  rw [if_pos (by omega)]
  congr 2
  omega

theorem readScalarHead_writeInt_neg {n : Int} (hlo : -2 ^ 63 ≤ n) (hneg : n < 0) :
    readScalarHead (writeInt n ++ rest) = .ok (.sint n, rest) := by
  unfold writeInt
  rw [if_neg (by omega)]
  split_ifs with h1 h2 h3 h4
  · simp only [List.singleton_append, readScalarHead, readHead, ofByte_fixNeg ⟨h1, hneg⟩,
      Marker.isScalar, if_true]
  · have hm : Marker.ofByte 0xd0 = .i8 := by decide
    simp only [List.cons_append, readScalarHead, readHead, hm, Marker.isScalar, if_true, Except.map,
      readSigned_beBytes rest (k := 1) (by omega) rfl (by simpa using h2) hneg]
  · have hm : Marker.ofByte 0xd1 = .i16 := by decide
    simp only [List.cons_append, readScalarHead, readHead, hm, Marker.isScalar, if_true, Except.map,
      readSigned_beBytes rest (k := 2) (by omega) rfl (by simpa using h3) hneg]
  · have hm : Marker.ofByte 0xd2 = .i32 := by decide
    simp only [List.cons_append, readScalarHead, readHead, hm, Marker.isScalar, if_true, Except.map,
      readSigned_beBytes rest (k := 4) (by omega) rfl (by simpa using h4) hneg]
  · have hm : Marker.ofByte 0xd3 = .i64 := by decide
    simp only [List.cons_append, readScalarHead, readHead, hm, Marker.isScalar, if_true, Except.map,
      readSigned_beBytes rest (k := 8) (by omega) rfl (by simpa using hlo) hneg]

theorem readInt64_writeInt {n : Int} (h : -2 ^ 63 ≤ n ∧ n < 2 ^ 63) :
    readInt64 (writeInt n ++ rest) = .ok (n, rest) := by
  by_cases hn : 0 ≤ n
  · have hw : writeInt n = writeUInt n.toNat := by rw [writeInt, if_pos hn]
    have hlt : n.toNat < Nat.pow 2 63 := by
      show n.toNat < 9223372036854775808
      omega
    simp [readInt64, hw, readScalarHead_writeUInt rest (n := n.toNat) (by omega), hlt, hn,
      bind, Except.bind]
  · simp [readInt64, readScalarHead_writeInt_neg rest h.1 (by omega), bind, Except.bind]

theorem readCount_writeUInt {n : Nat} (h : n < 2 ^ 64) :
    readCount (writeUInt n ++ rest) = .ok (n, rest) := by
  simp [readCount, readScalarHead_writeUInt rest h, bind, Except.bind]

theorem readByte_writeUInt (b : UInt8) : readByte (writeUInt b.toNat ++ rest) = .ok (b, rest) := by
  have hb : b.toNat < 2 ^ 64 := by
    have := b.toNat_lt
    omega
  simp [readByte, readScalarHead_writeUInt rest hb, bind, Except.bind, b.toNat_lt]

theorem readDouble_writeF64 (bits : UInt64) : readDouble (writeF64 bits ++ rest) = .ok (bits, rest) := by
  simp [readDouble, writeF64, readScalarHead, readHead, Marker.ofByte, Marker.isScalar,
    readUnsigned_beBytes, Except.map, bind, Except.bind]

theorem readBool_writeBool (b : Bool) : readBool (writeBool b ++ rest) = .ok (b, rest) := by
  cases b <;> simp [readBool, writeBool, readScalarHead, readHead, Marker.ofByte,
    Marker.isScalar, bind, Except.bind]

theorem readText_writeStr {s : String} (h : s.utf8ByteSize < 2 ^ 32) :
    readText (writeStr s ++ rest) = .ok (s, rest) := by
  simp only [readText, readHead_writeStr rest h, bind, Except.bind, utf8Fault_toUTF8,
    textOf_toUTF8]

theorem readIdentifier_writeId {n : Nat} (h : n < 2 ^ 128) :
    readIdentifier (writeId n ++ rest) = .ok (n, rest) := by
  have hlen : (beBytes n 16).length < 2 ^ 32 := by
    rw [length_beBytes]
    norm_num
  have h' : n < 340282366920938463463374607431768211456 := h
  simp [readIdentifier, writeId, readHead_writeBin rest hlen, length_beBytes, beValue_beBytes,
    h', bind, Except.bind]

end Scalars

/-! ### Sequences and variants -/

section Structure

variable (rest : List UInt8)

theorem readMany_flatMap {α} {read : Read α} {write : α → List UInt8} {xs : List α}
    (h : ∀ x ∈ xs, ∀ rest, read (write x ++ rest) = .ok (x, rest)) :
    readMany read xs.length (xs.flatMap write ++ rest) = .ok (xs, rest) := by
  induction xs with
  | nil => rfl
  | cons x xs ih =>
    have hx := h x List.mem_cons_self
    have hxs := ih fun y hy => h y (List.mem_cons_of_mem x hy)
    simp only [List.length_cons, List.flatMap_cons, List.append_assoc, readMany, hx, hxs, bind,
      Except.bind]

theorem readSeq_flatMap {α} {read : Read α} {ofByte : UInt8 → Except DecodeError α}
    {write : α → List UInt8} {xs : List α} (hlen : xs.length < 2 ^ 32)
    (h : ∀ x ∈ xs, ∀ rest, read (write x ++ rest) = .ok (x, rest)) :
    readSeq read ofByte (arrayHeader xs.length ++ xs.flatMap write ++ rest) = .ok (xs, rest) := by
  simp only [readSeq, List.append_assoc, readHead_arrayHeader _ hlen, bind, Except.bind,
    readMany_flatMap rest h]

theorem findIdx?_name {names : List String} (hnd : (names.map fun n => n.toUTF8.toList).Nodup)
    {i : Nat} (hi : i < names.length) :
    names.findIdx? (·.toUTF8.toList == names[i].toUTF8.toList) = some i := by
  refine List.findIdx?_eq_some_iff_getElem.2 ⟨hi, by simp, fun j hji heq => ?_⟩
  have hj : j < (names.map fun n => n.toUTF8.toList).length := by simp; omega
  have hi' : i < (names.map fun n => n.toUTF8.toList).length := by simpa using hi
  have heq' : (names.map fun n => n.toUTF8.toList)[j] = (names.map fun n => n.toUTF8.toList)[i] := by
    simpa using heq
  have := hnd.getElem_inj_iff.1 heq'
  omega

theorem readVariantName_writeStr {names : List String} {name : String} {i : Nat}
    (hi : names.findIdx? (·.toUTF8.toList == name.toUTF8.toList) = some i)
    (hlen : name.utf8ByteSize < 2 ^ 32) :
    readVariantName names (writeStr name ++ rest) = .ok (i, rest) := by
  simp only [readVariantName, readHead_writeStr rest hlen, bind, Except.bind, utf8Fault_toUTF8, hi]

theorem readVariant_tagged (name : String) {names : List String} {i : Nat}
    (hi : names.findIdx? (·.toUTF8.toList == name.toUTF8.toList) = some i)
    (hlen : name.utf8ByteSize < 2 ^ 32) (body : List UInt8) :
    readVariant names (tagged name body ++ rest) = .ok ((i, true), body ++ rest) := by
  have hm : mapHeader 1 = [(0x80 + 1 : Nat).toUInt8] := rfl
  simp only [tagged, hm, List.append_assoc, List.cons_append, List.nil_append, readVariant,
    ofByte_fixMap (by omega : 1 < 16), if_true, readVariantName_writeStr _ hi hlen, Except.map]

theorem readVariant_bare (name : String) {names : List String} {i : Nat}
    (hi : names.findIdx? (·.toUTF8.toList == name.toUTF8.toList) = some i)
    (hlen : name.utf8ByteSize < 32) :
    readVariant names (writeStr name ++ rest) = .ok ((i, false), rest) := by
  have hlen' : name.toUTF8.toList.length < 32 := by rwa [length_toUTF8]
  have hw : writeStr name = (0xa0 + name.toUTF8.toList.length).toUInt8 :: name.toUTF8.toList := by
    simp only [writeStr, strHeader, if_pos hlen', List.singleton_append]
  rw [hw, List.cons_append, readVariant]
  simp only [ofByte_fixStr hlen']
  rw [← List.cons_append, ← hw, readVariantName_writeStr _ hi (by omega)]
  rfl

end Structure

/-! ### Values, contents and operations -/

section Data

variable (rest : List UInt8)

theorem valueNames_distinct : (valueNames.map fun n => n.toUTF8.toList).Nodup := by
  simp only [toList_eq_data]
  decide

theorem readValue_writeValue {v : Value} (hv : v.Encodable) :
    readValue (writeValue v ++ rest) = .ok (v, rest) := by
  have hnd := valueNames_distinct
  cases v with
  | null =>
    simp only [writeValue, readValue, bind, Except.bind,
      readVariant_bare rest "Null" (findIdx?_name hnd (i := 0) (by decide)) (by decide)]
    rfl
  | text s =>
    simp only [writeValue, readValue, bind, Except.bind, readBody, if_true, Except.map,
      readVariant_tagged rest "Text" (findIdx?_name hnd (i := 1) (by decide)) (by decide),
      readText_writeStr rest hv]
  | integer n =>
    simp only [writeValue, readValue, bind, Except.bind, readBody, if_true, Except.map,
      readVariant_tagged rest "Integer" (findIdx?_name hnd (i := 2) (by decide))
        (by decide),
      readInt64_writeInt rest hv]
  | float b =>
    simp only [writeValue, readValue, bind, Except.bind, readBody, if_true, Except.map,
      readVariant_tagged rest "Float" (findIdx?_name hnd (i := 3) (by decide))
        (by decide),
      readDouble_writeF64]
  | boolean b =>
    simp only [writeValue, readValue, bind, Except.bind, readBody, if_true, Except.map,
      readVariant_tagged rest "Boolean" (findIdx?_name hnd (i := 4) (by decide))
        (by decide),
      readBool_writeBool]
  | timestamp t =>
    simp only [writeValue, readValue, bind, Except.bind, readBody, if_true, Except.map,
      readVariant_tagged rest "Timestamp" (findIdx?_name hnd (i := 5) (by decide))
        (by decide),
      readInt64_writeInt rest hv]
  | ref id =>
    simp only [writeValue, readValue, bind, Except.bind, readBody, if_true, Except.map,
      readVariant_tagged rest "Ref" (findIdx?_name hnd (i := 6) (by decide)) (by decide),
      readIdentifier_writeId rest hv]
  | bytes bs =>
    have hbytes : ∀ b ∈ bs, ∀ rest, readByte (writeUInt b.toNat ++ rest) = .ok (b, rest) :=
      fun b _ rest => readByte_writeUInt rest b
    simp only [writeValue, readValue, bind, Except.bind, readBody, if_true, Except.map,
      readVariant_tagged rest "Bytes" (findIdx?_name hnd (i := 7) (by decide))
        (by decide),
      readSeq_flatMap rest hv hbytes]

theorem readEntry_write {k v : Value} (hk : k.Encodable) (hv : v.Encodable) :
    readEntry (arrayHeader 2 ++ writeValue k ++ writeValue v ++ rest) = .ok ((k, v), rest) := by
  simp [readEntry, readHead_arrayHeader _ (by norm_num : 2 < 2 ^ 32), readValue_writeValue _ hk,
    readValue_writeValue _ hv, bind, Except.bind]

theorem fieldDataNames_distinct :
    (["Scalar", "Collection", "Map"].map fun n => n.toUTF8.toList).Nodup := by
  simp only [toList_eq_data]
  decide

theorem readFieldData_writeFieldData {d : FieldData} (hd : d.Encodable) :
    readFieldData (writeFieldData d ++ rest) = .ok (d, rest) := by
  have hnd := fieldDataNames_distinct
  cases d with
  | scalar v =>
    simp only [writeFieldData, readFieldData, bind, Except.bind, readBody, if_true, Except.map,
      readVariant_tagged rest "Scalar" (findIdx?_name hnd (i := 0) (by decide))
        (by decide),
      readValue_writeValue rest hd]
  | collection vs =>
    have hvs : ∀ v ∈ vs, ∀ rest, readValue (writeValue v ++ rest) = .ok (v, rest) :=
      fun v hv rest => readValue_writeValue rest (hd.2 v hv)
    simp only [writeFieldData, readFieldData, bind, Except.bind, readBody, if_true, Except.map,
      readVariant_tagged rest "Collection" (findIdx?_name hnd (i := 1) (by decide))
        (by decide),
      readSeq_flatMap rest hd.1 hvs]
  | map es =>
    have hes : ∀ e ∈ es, ∀ rest, readEntry ((fun (e : Value × Value) =>
        arrayHeader 2 ++ writeValue e.1 ++ writeValue e.2) e ++ rest) = .ok (e, rest) :=
      fun e he rest => readEntry_write rest (hd.2 e he).1 (hd.2 e he).2
    simp only [writeFieldData, readFieldData, bind, Except.bind, readBody, if_true, Except.map,
      readVariant_tagged rest "Map" (findIdx?_name hnd (i := 2) (by decide))
        (by decide),
      readSeq_flatMap rest hd.1 hes]

def FieldsRead {α} : List (FieldReader α) → List (List UInt8) → List α → Prop
  | [], [], [] => True
  | f :: fs, p :: ps, a :: as => (∀ rest, f.read (p ++ rest) = .ok (a, rest)) ∧ FieldsRead fs ps as
  | _, _, _ => False

theorem readRecord_go {α} (short : Nat → DecodeError) {count n : Nat} (hn : n ≤ count) :
    ∀ {fs : List (FieldReader α)} {ps : List (List UInt8)} {as : List α} {i : Nat},
      FieldsRead fs ps as → i + fs.length = n → ∀ rest,
        readRecord.go count short n fs i (ps.flatten ++ rest) = .ok (as, rest)
  | [], [], [], i, _, _, rest => by
    rw [readRecord.go, if_neg (by omega)]
    rfl
  | f :: fs, p :: ps, a :: as, i, ⟨hf, hfs⟩, hlen, rest => by
    have hi : i < n := by simp at hlen; omega
    have htail := readRecord_go short hn hfs (i := i + 1) (by simp at hlen; omega) rest
    rw [readRecord.go, if_pos hi, List.flatten_cons, List.append_assoc]
    simp only [bind, Except.bind, hf, htail]

theorem readRecord_array {α} {expected : String} {depth n : Nat} {fs : List (FieldReader α)}
    {ps : List (List UInt8)} {as : List α} (h : FieldsRead fs ps as) (hn : fs.length = n)
    (hlen : n < 2 ^ 32) :
    readRecord expected depth fs (arrayHeader n ++ ps.flatten ++ rest) = .ok (as, rest) := by
  subst hn
  simp only [readRecord, List.append_assoc, readHead_arrayHeader _ hlen, bind, Except.bind]
  exact readRecord_go _ le_rfl h (Nat.zero_add _) rest

theorem part_read {α} {name : String} {read : Read α} {ofByte : UInt8 → Except DecodeError α}
    {f : α → Part} {p : List UInt8} {a : α} (h : ∀ rest, read (p ++ rest) = .ok (a, rest)) :
    ∀ rest, (part name read ofByte f).read (p ++ rest) = .ok (f a, rest) := by
  intro rest
  simp [part, h, Except.map]

theorem payloadNames_distinct :
    (["Element", "Indexed", "Entry", "Key"].map fun n => n.toUTF8.toList).Nodup := by
  simp only [toList_eq_data]
  decide

theorem readPayload_writePayload (depth : Nat) {p : Payload} (hp : p.Encodable) :
    readPayload depth (writePayload p ++ rest) = .ok (p, rest) := by
  have hnd := payloadNames_distinct
  cases p with
  | element v =>
    simp only [writePayload, readPayload, bind, Except.bind, readBody, if_true, Except.map,
      readVariant_tagged rest "Element" (findIdx?_name hnd (i := 0) (by decide))
        (by decide),
      readValue_writeValue rest hp]
  | indexed i v =>
    have hfields : FieldsRead [part "index" readCount (byteAsItem readCount) Part.count,
        part "element" readValue (refuseByte "enum Value") Part.value]
        [writeUInt i, writeValue v] [.count i, .value v] :=
      ⟨part_read (readCount_writeUInt · hp.1), part_read (readValue_writeValue · hp.2), trivial⟩
    have hbody : arrayHeader 2 ++ writeUInt i ++ writeValue v =
        arrayHeader 2 ++ [writeUInt i, writeValue v].flatten := by simp
    simp only [writePayload, readPayload, bind, Except.bind, readBody, if_true, Except.map,
      readVariant_tagged rest "Indexed" (findIdx?_name hnd (i := 1) (by decide))
        (by decide),
      hbody, readRecord_array rest hfields (n := 2) rfl (by norm_num)]
  | entry k v =>
    have hfields : FieldsRead [part "key" readValue (refuseByte "enum Value") Part.value,
        part "value" readValue (refuseByte "enum Value") Part.value]
        [writeValue k, writeValue v] [.value k, .value v] :=
      ⟨part_read (readValue_writeValue · hp.1), part_read (readValue_writeValue · hp.2), trivial⟩
    have hbody : arrayHeader 2 ++ writeValue k ++ writeValue v =
        arrayHeader 2 ++ [writeValue k, writeValue v].flatten := by simp
    simp only [writePayload, readPayload, bind, Except.bind, readBody, if_true, Except.map,
      readVariant_tagged rest "Entry" (findIdx?_name hnd (i := 2) (by decide))
        (by decide),
      hbody, readRecord_array rest hfields (n := 2) rfl (by norm_num)]
  | key k =>
    simp only [writePayload, readPayload, bind, Except.bind, readBody, if_true, Except.map,
      readVariant_tagged rest "Key" (findIdx?_name hnd (i := 3) (by decide))
        (by decide),
      readValue_writeValue rest hp]

theorem readKind_kindName (k : OperationKind) :
    readKind (writeStr (kindName k) ++ rest) = .ok (k, rest) := by
  have hnd : (["ElementAdd", "ElementRemove"].map fun n => n.toUTF8.toList).Nodup := by
    simp only [toList_eq_data]
    decide
  cases k with
  | add =>
    simp only [kindName, readKind, bind, Except.bind, readUnitBody,
      readVariant_bare rest "ElementAdd" (findIdx?_name hnd (i := 0) (by decide))
        (by decide)]
    rfl
  | remove =>
    simp only [kindName, readKind, bind, Except.bind, readUnitBody,
      readVariant_bare rest "ElementRemove" (findIdx?_name hnd (i := 1) (by decide))
        (by decide)]
    rfl

theorem readOperation_writeOperation {op : Operation} (hop : op.Encodable) :
    readOperation (writeOperation op ++ rest) = .ok (op, rest) := by
  obtain ⟨hid, howner, hfield, hpayload⟩ := hop
  have hfields : FieldsRead
      [part "op_id" readIdentifier (refuseByte "tuple struct OpId") .id,
       part "kind" readKind (refuseByte "enum OperationKind") .kind,
       part "owner" readIdentifier (refuseByte "tuple struct ObjectId") .id,
       part "field" readCount (byteAsItem readCount) .count,
       part "payload" (readPayload 1) (refuseByte "enum OperationPayload") .payload,
       part "allow_cascade" readBool (byteAsItem readBool) .flag]
      [writeId op.opId, writeStr (kindName op.kind), writeId op.owner.val, writeUInt op.field,
       writePayload op.payload, writeBool op.allowCascade]
      [.id op.opId, .kind op.kind, .id op.owner.val, .count op.field, .payload op.payload,
       .flag op.allowCascade] :=
    ⟨part_read (readIdentifier_writeId · hid), part_read (readKind_kindName · op.kind),
      part_read (readIdentifier_writeId · howner), part_read (readCount_writeUInt · hfield),
      part_read (readPayload_writePayload · 1 hpayload), part_read (readBool_writeBool · _),
      trivial⟩
  have hbytes : writeOperation op = arrayHeader 6 ++ [writeId op.opId, writeStr (kindName op.kind),
      writeId op.owner.val, writeUInt op.field, writePayload op.payload,
      writeBool op.allowCascade].flatten := by
    simp [writeOperation]
  simp only [readOperation, hbytes, bind, Except.bind, readRecord_array rest hfields (n := 6) rfl (by norm_num)]

end Data

/-! ### Whole messages -/

theorem decodeValue_writeValue {v : Value} (hv : v.Encodable) : decodeValue (writeValue v) = .ok v := by
  have h := readValue_writeValue [] hv
  rw [List.append_nil] at h
  simp [decodeValue, h, Except.map]

theorem decodeFieldData_writeFieldData {d : FieldData} (hd : d.Encodable) :
    decodeFieldData (writeFieldData d) = .ok d := by
  have h := readFieldData_writeFieldData [] hd
  rw [List.append_nil] at h
  simp [decodeFieldData, h, Except.map]

theorem decodeOperation_writeOperation {op : Operation} (hop : op.Encodable) :
    decodeOperation (writeOperation op) = .ok op := by
  have h := readOperation_writeOperation [] hop
  rw [List.append_nil] at h
  simp [decodeOperation, h, Except.map]

theorem writeValue_inj {a b : Value} (ha : a.Encodable) (hb : b.Encodable) :
    writeValue a = writeValue b ↔ a = b := by
  constructor
  · intro h
    have hread : (Except.ok a : Except DecodeError Value) = .ok b := by
      rw [← decodeValue_writeValue ha, ← decodeValue_writeValue hb, h]
    exact Except.ok.inj hread
  · rintro rfl
    rfl

/-- Every value, content and operation the wire form can carry reads back from its bytes as
itself, float bits included, so the bytes of two values agree exactly when the values do. -/
theorem wire_form_reads_back :
    (∀ v : Value, v.Encodable → decodeValue (writeValue v) = .ok v) ∧
    (∀ d : FieldData, d.Encodable → decodeFieldData (writeFieldData d) = .ok d) ∧
    (∀ op : Operation, op.Encodable → decodeOperation (writeOperation op) = .ok op) ∧
    (∀ a b : Value, a.Encodable → b.Encodable → (writeValue a = writeValue b ↔ a = b)) :=
  ⟨fun _ => decodeValue_writeValue, fun _ => decodeFieldData_writeFieldData,
    fun _ => decodeOperation_writeOperation, fun _ _ => writeValue_inj⟩

/-- A NaN with a payload reads back bit for bit, and negative zero is written apart from zero. -/
theorem wire_form_keeps_float_bits :
    decodeValue (writeValue (.float 0x7ff8000000000001)) = .ok (.float 0x7ff8000000000001) ∧
    writeValue (.float 0x8000000000000000) ≠ writeValue (.float 0) := by
  refine ⟨wire_form_reads_back.1 _ trivial, fun h => ?_⟩
  have hbits := (wire_form_reads_back.2.2.2 (.float 0x8000000000000000) (.float 0) trivial trivial).1 h
  simp at hbits


end MessagePack

end ObjectPersistence
