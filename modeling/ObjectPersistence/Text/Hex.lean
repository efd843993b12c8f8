/-! # Hexadecimal text

Numbers and byte strings written as lowercase hexadecimal digits, most significant first, and
read back from digits of either case. Reading a digit back gives the number it was written
for (`digitValue_digit`), so reading the text of a byte string gives the bytes back
(`toBytes_ofBytes`). -/

namespace ObjectPersistence

namespace Hex

def digit (n : Nat) : Char :=
  if n < 10 then Char.ofNat (48 + n) else Char.ofNat (87 + n)

def digits (n : Nat) : Nat → List Char
  | 0 => []
  | count + 1 => digits (n / 16) count ++ [digit (n % 16)]

def digitValue (c : Char) : Nat :=
  if c.isDigit then c.toNat - 48 else if 'a' ≤ c && c ≤ 'f' then c.toNat - 87 else c.toNat - 55

def toNat (s : String) : Nat := s.toList.foldl (fun a c => a * 16 + digitValue c) 0

def pairs : List Char → List UInt8
  | a :: b :: r => (digitValue a * 16 + digitValue b).toUInt8 :: pairs r
  | _ => []

def toBytes (s : String) : List UInt8 := pairs s.toList

def ofBytes (bs : List UInt8) : String := String.ofList (bs.flatMap fun b => digits b.toNat 2)

theorem digitValue_digit (n : Nat) (h : n < 16) : digitValue (digit n) = n := by
  have : n = 0 ∨ n = 1 ∨ n = 2 ∨ n = 3 ∨ n = 4 ∨ n = 5 ∨ n = 6 ∨ n = 7 ∨ n = 8 ∨ n = 9 ∨
    n = 10 ∨ n = 11 ∨ n = 12 ∨ n = 13 ∨ n = 14 ∨ n = 15 := by omega
  rcases this with h | h | h | h | h | h | h | h | h | h | h | h | h | h | h | h <;> subst h <;> rfl

theorem digits_two (n : Nat) : digits n 2 = [digit (n / 16 % 16), digit (n % 16)] := by
  simp [digits]

theorem pairs_digits (b : UInt8) (r : List Char) :
    pairs (digits b.toNat 2 ++ r) = b :: pairs r := by
  rw [digits_two]
  simp only [List.cons_append, List.nil_append, pairs]
  rw [digitValue_digit _ (Nat.mod_lt _ (by omega)), digitValue_digit _ (Nat.mod_lt _ (by omega))]
  have hb := b.toNat_lt
  congr 1
  have : b.toNat / 16 % 16 * 16 + b.toNat % 16 = b.toNat := by omega
  rw [this]
  exact UInt8.ofNat_toNat

theorem toBytes_ofBytes (bs : List UInt8) : toBytes (ofBytes bs) = bs := by
  unfold toBytes ofBytes
  rw [String.toList_ofList]
  induction bs with
  | nil => rfl
  | cons b rest ih =>
    rw [List.flatMap_cons, pairs_digits, ih]

end Hex

end ObjectPersistence
