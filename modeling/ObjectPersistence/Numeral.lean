import ObjectPersistence.Binary64.Round

/-! # Reading numerals

Two readers of numbers written in ASCII text. An integer is an optional sign and at least
one decimal digit, and it must fit in 64 signed bits. A decimal fraction is an optional sign
followed by `inf`, `infinity` or `nan` in any case, or by digits with at most one point and at
least one digit, then an optional exponent `e` or `E` with an optional sign and at least one
digit; it is rounded to the nearest double. Nothing else may stand in the text: no blank, no
separator, no base prefix. -/

namespace ObjectPersistence.Numeral

def digitsValue (ds : List Char) : Nat :=
  ds.foldl (fun acc c => acc * 10 + (c.toNat - 48)) 0

def splitSign : List Char → Bool × List Char
  | '+' :: rest => (false, rest)
  | '-' :: rest => (true, rest)
  | rest => (false, rest)

def int64Min : Int := -(Nat.pow 2 63)

def int64Max : Int := Nat.pow 2 63 - 1

def readInt64? (s : String) : Option Int :=
  let (neg, ds) := splitSign s.toList
  if ds.isEmpty || !ds.all Char.isDigit then none
  else
    let n : Int := digitsValue ds
    let v := if neg then -n else n
    if int64Min ≤ v ∧ v ≤ int64Max then some v else none

def lowerAscii (c : Char) : Char :=
  if 'A' ≤ c ∧ c ≤ 'Z' then Char.ofNat (c.toNat + 32) else c

/-- Digits before the point, digits after it, the signed exponent, or `none` when the text
is no decimal numeral. -/
def splitDecimal (cs : List Char) : Option (List Char × List Char × Int) :=
  let whole := cs.takeWhile Char.isDigit
  let afterWhole := cs.dropWhile Char.isDigit
  let (frac, afterFrac) := match afterWhole with
    | '.' :: rest => (rest.takeWhile Char.isDigit, rest.dropWhile Char.isDigit)
    | rest => ([], rest)
  if whole.isEmpty && frac.isEmpty then none
  else
    match afterFrac with
    | [] => some (whole, frac, 0)
    | c :: rest =>
      if c = 'e' ∨ c = 'E' then
        let (negExp, eds) := splitSign rest
        if eds.isEmpty || !eds.all Char.isDigit then none
        else
          let e : Int := digitsValue eds
          some (whole, frac, if negExp then -e else e)
      else none

/-- The double nearest to `m · 10 ^ e`, negated when `neg`. Magnitudes far outside the
range of doubles go straight to infinity or zero. -/
def scaledDecimal (neg : Bool) (m : Nat) (e : Int) : UInt64 :=
  if m = 0 then Binary64.withSign neg 0
  else
    let magnitude := e + ((Nat.toDigits 10 m).length : Int)
    if magnitude > 310 then Binary64.withSign neg Binary64.infinityBits.toNat
    else if magnitude < -400 then Binary64.withSign neg 0
    else if 0 ≤ e then Binary64.ofRatio neg (m * Nat.pow 10 e.toNat) 1
    else Binary64.ofRatio neg m (Nat.pow 10 (-e).toNat)

/-- Reads a decimal fraction, or `inf`, `infinity`, `nan`, as the bits of a double. -/
def readFloat? (s : String) : Option UInt64 :=
  let (neg, rest) := splitSign s.toList
  let low := rest.map lowerAscii
  if low = "inf".toList ∨ low = "infinity".toList then
    some (Binary64.withSign neg Binary64.infinityBits.toNat)
  else if low = "nan".toList then
    some (Binary64.withSign neg Binary64.nanBits.toNat)
  else
    (splitDecimal rest).map fun (whole, frac, e) =>
      scaledDecimal neg (digitsValue (whole ++ frac)) (e - frac.length)

end ObjectPersistence.Numeral
