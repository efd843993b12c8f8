/-! # Binary64 numbers by their bits

A double-precision number is kept as its 64 bits. This module holds the order that sorts
such numbers (negative NaNs first, then negative infinity through negative zero, positive
zero through positive infinity, positive NaNs last) and the rounding of an exact ratio of
naturals to the nearest double, a tie going to the even significand. -/

namespace ObjectPersistence.Binary64

def signBit : Nat := Nat.pow 2 63

def infinityBits : UInt64 := 0x7ff0000000000000

def nanBits : UInt64 := 0x7ff8000000000000

/-- A key whose natural order is the total order of doubles: a negative number has all its
bits flipped, a positive one gains the sign bit. -/
def totalKey (bits : UInt64) : Nat :=
  if bits.toNat < signBit then bits.toNat + signBit else Nat.pow 2 64 - 1 - bits.toNat

def totalCompare (a b : UInt64) : Ordering := compare (totalKey a) (totalKey b)

def withSign (neg : Bool) (bits : Nat) : UInt64 :=
  (if neg then bits + signBit else bits).toUInt64

def roundHalfEven (n d : Nat) : Nat :=
  let q := n / d
  let r := n % d
  if 2 * r < d then q
  else if 2 * r > d then q + 1
  else if q % 2 = 0 then q else q + 1

def ratioAtLeastPow (n d : Nat) (k : Int) : Bool :=
  n * Nat.pow 2 (-k).toNat ≥ d * Nat.pow 2 k.toNat

def floorLog2Ratio (n d : Nat) : Int :=
  let e : Int := (Nat.log2 n : Int) - (Nat.log2 d : Int)
  if ratioAtLeastPow n d e then e else e - 1

/-- The double nearest to `n / d` (a tie to the even significand), negated when `neg`.
Magnitudes from `2 ^ 1024` up give infinity and those at most `2 ^ -1075` give zero. -/
def ofRatio (neg : Bool) (n d : Nat) : UInt64 :=
  if n = 0 ∨ d = 0 then withSign neg 0
  else
    let k := floorLog2Ratio n d
    if k > 1024 then withSign neg infinityBits.toNat
    else if k < -1080 then withSign neg 0
    else
      let q : Int := max (k - 52) (-1074)
      let m := roundHalfEven (n * Nat.pow 2 (-q).toNat) (d * Nat.pow 2 q.toNat)
      let (m, q) := if m = Nat.pow 2 53 then (Nat.pow 2 52, q + 1) else (m, q)
      if m < Nat.pow 2 52 then withSign neg m
      else
        let biased := q + 1075
        if biased ≥ 2047 then withSign neg infinityBits.toNat
        else withSign neg (biased.toNat * Nat.pow 2 52 + (m - Nat.pow 2 52))

def ofInt (n : Int) : UInt64 :=
  ofRatio (n < 0) n.natAbs 1

/-- The value of the double nearest to an integer, a tie going to the even significand; for
integers below `2 ^ 1024` in magnitude, where the doubles are integers too. -/
def nearestInt (n : Int) : Int :=
  let a := n.natAbs
  if a < Nat.pow 2 53 then n
  else
    let k := Nat.log2 a - 52
    let m := roundHalfEven a (Nat.pow 2 k) * Nat.pow 2 k
    if n < 0 then -(m : Int) else m

end ObjectPersistence.Binary64
