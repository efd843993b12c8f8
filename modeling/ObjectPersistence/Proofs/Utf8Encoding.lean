import Mathlib
import ObjectPersistence.MessagePack.Reader

/-! # The bytes of a text

A reader checks that the bytes of a string are UTF-8 by walking them one character at a time
(`utf8Fault`), and only then reads them as text (`textOf`). This module shows that the bytes of
every text pass the check and read back as that text.

The check knows four classes of characters: one byte below `0x80`; two bytes led by
`0xC2`..`0xDF`; three led by `0xE0`..`0xEF`, where `0xE0` forbids overlong forms and `0xED` the
surrogates; four led by `0xF0`..`0xF4`, where `0xF0` forbids overlong forms and `0xF4` code points
beyond `0x10FFFF`. The encoding of a character falls in the class its code point's range gives,
and a character is never a surrogate, so the walk passes every character it meets. -/

namespace ObjectPersistence.MessagePack

/-! ### Byte arrays as lists -/

theorem toList_loop (bs : ByteArray) (i : Nat) (r : List UInt8) :
    ByteArray.toList.loop bs i r = r.reverse ++ bs.data.toList.drop i := by
  fun_induction ByteArray.toList.loop bs i r with
  | case1 i r h ih =>
    rw [ih]
    have hi : i < bs.data.toList.length := by simpa using h
    rw [List.drop_eq_getElem_cons hi]
    simp [ByteArray.get!, getElem!_pos bs.data i h]
  | case2 i r h =>
    have hend : bs.data.toList.length ≤ i := by simpa using h
    simp [List.drop_eq_nil_of_le hend]

theorem toList_eq_data (bs : ByteArray) : bs.toList = bs.data.toList := by
  simp [ByteArray.toList, toList_loop]

theorem toUTF8_toList (s : String) : s.toUTF8.toList = s.toList.flatMap String.utf8EncodeChar := by
  rw [toList_eq_data, String.toUTF8_eq_toByteArray, ← String.utf8Encode_toList, List.utf8Encode]
  simp

theorem length_toUTF8 (s : String) : s.toUTF8.toList.length = s.utf8ByteSize := by
  rw [toList_eq_data, Array.length_toList]
  rfl

/-! ### One character at a time -/

section Classes

variable (rest : List UInt8) (i : Nat)

theorem utf8Fault_one {a : UInt8} (ha : a.toNat < 0x80) :
    utf8Fault (a :: rest) i = utf8Fault rest (i + 1) := by
  rw [utf8Fault.eq_def]
  simp [ha]

theorem utf8Fault_two {a b : UInt8} (ha : 0xc2 ≤ a.toNat ∧ a.toNat ≤ 0xdf)
    (hb : 0x80 ≤ b.toNat ∧ b.toNat ≤ 0xbf) :
    utf8Fault (a :: b :: rest) i = utf8Fault rest (i + 2) := by
  have h1 : ¬ a.toNat < 0x80 := by omega
  rw [utf8Fault.eq_def]
  simp [h1, ha, hb]

theorem utf8Fault_three {a b c : UInt8} (ha : 0xe0 ≤ a.toNat ∧ a.toNat ≤ 0xef)
    (hb : (if a.toNat = 0xe0 then 0xa0 else 0x80) ≤ b.toNat ∧
      b.toNat ≤ (if a.toNat = 0xed then 0x9f else 0xbf))
    (hc : 0x80 ≤ c.toNat ∧ c.toNat ≤ 0xbf) :
    utf8Fault (a :: b :: c :: rest) i = utf8Fault rest (i + 3) := by
  have h1 : ¬ a.toNat < 0x80 := by omega
  have h2 : (0xc2 ≤ a.toNat && a.toNat ≤ 0xdf) = false := by simp; omega
  have h3 : (0xe0 ≤ a.toNat && a.toNat ≤ 0xef) = true := by simp; omega
  -- the lead byte fixes which range the second byte is checked against
  have hsecond : (if a.toNat = 0xe0 then 0xa0 ≤ b.toNat && b.toNat ≤ 0xbf
      else if a.toNat = 0xed then 0x80 ≤ b.toNat && b.toNat ≤ 0x9f
      else 0x80 ≤ b.toNat && b.toNat ≤ 0xbf) = true := by
    split_ifs at hb ⊢ <;> simp <;> omega
  have hthird : (0x80 ≤ c.toNat && c.toNat ≤ 0xbf) = true := by simp; omega
  rw [utf8Fault.eq_def]
  simp only [h1, h2, h3, hsecond, hthird, Bool.not_true, Bool.false_eq_true, if_false, if_true]

theorem utf8Fault_four {a b c d : UInt8} (ha : 0xf0 ≤ a.toNat ∧ a.toNat ≤ 0xf4)
    (hb : (if a.toNat = 0xf0 then 0x90 else 0x80) ≤ b.toNat ∧
      b.toNat ≤ (if a.toNat = 0xf4 then 0x8f else 0xbf))
    (hc : 0x80 ≤ c.toNat ∧ c.toNat ≤ 0xbf) (hd : 0x80 ≤ d.toNat ∧ d.toNat ≤ 0xbf) :
    utf8Fault (a :: b :: c :: d :: rest) i = utf8Fault rest (i + 4) := by
  have h1 : ¬ a.toNat < 0x80 := by omega
  have h2 : (0xc2 ≤ a.toNat && a.toNat ≤ 0xdf) = false := by simp; omega
  have h3 : (0xe0 ≤ a.toNat && a.toNat ≤ 0xef) = false := by simp; omega
  have h4 : (0xf0 ≤ a.toNat && a.toNat ≤ 0xf4) = true := by simp; omega
  have hsecond : (if a.toNat = 0xf0 then 0x90 ≤ b.toNat && b.toNat ≤ 0xbf
      else if a.toNat = 0xf4 then 0x80 ≤ b.toNat && b.toNat ≤ 0x8f
      else 0x80 ≤ b.toNat && b.toNat ≤ 0xbf) = true := by
    split_ifs at hb ⊢ <;> simp <;> omega
  have hthird : (0x80 ≤ c.toNat && c.toNat ≤ 0xbf) = true := by simp; omega
  have hfourth : (0x80 ≤ d.toNat && d.toNat ≤ 0xbf) = true := by simp; omega
  rw [utf8Fault.eq_def]
  simp only [h1, h2, h3, h4, hsecond, hthird, hfourth, Bool.not_true, Bool.false_eq_true, if_false,
    if_true]

end Classes

theorem utf8Fault_encodeChar (c : Char) (rest : List UInt8) (i : Nat) :
    utf8Fault (String.utf8EncodeChar c ++ rest) i = utf8Fault rest (i + c.utf8Size) := by
  -- the code point and what `Char` guarantees of it: below 0x110000 and no surrogate
  have hvalid : c.val.toNat < 0xd800 ∨ (0xdfff < c.val.toNat ∧ c.val.toNat < 0x110000) := by
    simpa [UInt32.isValidChar, Nat.isValidChar] using c.valid
  have hbyte : ∀ n, (UInt8.ofNat n).toNat = n % 256 := fun n => UInt8.toNat_ofNat'
  rcases Char.utf8Size_eq c with h | h | h | h <;> rw [h]
  · have hv : c.val.toNat ≤ 0x7f := by
      simpa [UInt32.le_iff_toNat_le] using Char.utf8Size_eq_one_iff.1 h
    simp only [String.utf8EncodeChar, hv, if_true, List.cons_append, List.nil_append]
    exact utf8Fault_one rest i (by rw [hbyte]; omega)
  · have hv := Char.utf8Size_eq_two_iff.1 h
    simp only [UInt32.lt_iff_toNat_lt, UInt32.le_iff_toNat_le, UInt32.reduceToNat] at hv
    have h1 : ¬ c.val.toNat ≤ 0x7f := by omega
    simp only [String.utf8EncodeChar, h1, hv.2, if_false, if_true, List.cons_append,
      List.nil_append]
    exact utf8Fault_two rest i (by rw [hbyte]; omega) (by rw [hbyte]; omega)
  · have hv := Char.utf8Size_eq_three_iff.1 h
    simp only [UInt32.lt_iff_toNat_lt, UInt32.le_iff_toNat_le, UInt32.reduceToNat] at hv
    have h1 : ¬ c.val.toNat ≤ 0x7f := by omega
    have h2 : ¬ c.val.toNat ≤ 0x7ff := by omega
    simp only [String.utf8EncodeChar, h1, h2, hv.2, if_false, if_true, List.cons_append,
      List.nil_append]
    -- a lead byte of 0xE0 means a code point from 0x800, one of 0xED one below 0xD800
    refine utf8Fault_three rest i (by rw [hbyte]; omega) ?_ (by rw [hbyte]; omega)
    simp only [hbyte]
    split_ifs <;> omega
  · have hv := Char.utf8Size_eq_four_iff.1 h
    simp only [UInt32.lt_iff_toNat_lt, UInt32.reduceToNat] at hv
    have h1 : ¬ c.val.toNat ≤ 0x7f := by omega
    have h2 : ¬ c.val.toNat ≤ 0x7ff := by omega
    have h3 : ¬ c.val.toNat ≤ 0xffff := by omega
    simp only [String.utf8EncodeChar, h1, h2, h3, if_false, List.cons_append, List.nil_append]
    -- a lead byte of 0xF0 means a code point from 0x10000, one of 0xF4 one to 0x10FFFF
    refine utf8Fault_four rest i (by rw [hbyte]; omega) ?_ (by rw [hbyte]; omega)
      (by rw [hbyte]; omega)
    simp only [hbyte]
    split_ifs <;> omega

theorem utf8Fault_flatMap (cs : List Char) (i : Nat) :
    utf8Fault (cs.flatMap String.utf8EncodeChar) i = none := by
  induction cs generalizing i with
  | nil => rfl
  | cons c cs ih => rw [List.flatMap_cons, utf8Fault_encodeChar, ih]

/-! ### Texts -/

theorem utf8Fault_toUTF8 (s : String) : utf8Fault s.toUTF8.toList 0 = none := by
  rw [toUTF8_toList, utf8Fault_flatMap]

theorem textOf_toUTF8 (s : String) : textOf s.toUTF8.toList = s := by
  have hbytes : ByteArray.mk s.toUTF8.toList.toArray = s.toByteArray := by
    rw [toList_eq_data, Array.toArray_toList]
    rfl
  simp only [textOf, hbytes, String.fromUTF8?, s.isValidUTF8, dite_true, Option.getD_some]
  rfl

end ObjectPersistence.MessagePack
