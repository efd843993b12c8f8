import ObjectPersistence.Binary64.Round

/-! # Shortest decimal text of a double

A finite double stands for the interval of reals that round to it; its shortest decimal is
the decimal with the fewest significant digits inside that interval (ends included when the
significand is even), the one nearer to the double when two of that length qualify, the
larger one when they are equally near. Two layouts write the digits: the plain one never
uses an exponent and shows a fraction only when there is one; the diagnostic one keeps at
least one fractional digit and switches to an exponent below `1e-4` and from `1e16` on. -/

namespace ObjectPersistence.Binary64

def decompose (bits : UInt64) : Bool × Nat × Int :=
  let n := bits.toNat
  let frac : Nat := n % Nat.pow 2 52
  let expField : Nat := (n / Nat.pow 2 52) % 2048
  if expField = 0 then (n ≥ signBit, frac, -1074)
  else (n ≥ signBit, frac + Nat.pow 2 52, ((expField : Nat) : Int) - 1075)

def isSpecial (bits : UInt64) : Bool := (bits.toNat / Nat.pow 2 52) % 2048 = 2047

def isNaN (bits : UInt64) : Bool := isSpecial bits && bits.toNat % Nat.pow 2 52 != 0

def compareScaled (a d c : Nat) (k : Int) : Ordering :=
  compare (a * Nat.pow 10 (-k).toNat) (c * Nat.pow 10 k.toNat * d)

def floorLog10 (a d : Nat) : Int :=
  let guess : Int := ((Nat.log2 a : Int) - (Nat.log2 d : Int)) * 30103 / 100000
  let down := (List.range 4).foldl (fun t _ =>
    if compareScaled a d 1 t = .lt then t - 1 else t) guess
  (List.range 4).foldl (fun t _ =>
    if compareScaled a d 1 (t + 1) = .lt then t else t + 1) down

/-- Significant digits and the position of the point: the value is `0.d₁d₂… · 10 ^ p`. -/
structure Digits where
  digits : List Nat
  point : Int
  deriving DecidableEq, Repr

/-- The decimal digits of a positive number without its trailing zeros, with their count
before trimming. -/
def trimmedDigits (c : Nat) : List Nat × Nat :=
  let ds := (Nat.toDigits 10 c).map fun ch => ch.toNat - 48
  ((ds.reverse.dropWhile (· = 0)).reverse, ds.length)

/-- The shortest decimal of a positive finite double with significand `m` and exponent `e`. -/
def shortest (m : Nat) (e : Int) : Digits :=
  -- every quantity is a multiple of `u = 2 ^ (e - 2)` over the denominator `den`
  let (u, den) := if e ≥ 2 then (Nat.pow 2 (e - 2).toNat, 1) else (1, Nat.pow 2 (2 - e).toNat)
  let v := 4 * m * u
  let hi := (4 * m + 2) * u
  let lo := if m = Nat.pow 2 52 ∧ e > -1074 then (4 * m - 1) * u else (4 * m - 2) * u
  let closed := m % 2 = 0
  let inside (c : Nat) (k : Int) : Bool :=
    let a := compareScaled lo den c k
    let b := compareScaled hi den c k
    (a = .lt || (closed && a = .eq)) && (b = .gt || (closed && b = .eq))
  let distance (c : Nat) (k : Int) : Nat :=
    let x := v * Nat.pow 10 (-k).toNat
    let y := c * Nat.pow 10 k.toNat * den
    if x ≥ y then x - y else y - x
  let t := floorLog10 v den
  let found := (List.range 17).findSome? fun (i : Nat) =>
    let k : Int := t - (i : Int)
    let cLo := v * Nat.pow 10 (-k).toNat / (Nat.pow 10 k.toNat * den)
    let cHi := cLo + 1
    match inside cLo k, inside cHi k with
    | true, true =>
      let dl := distance cLo k
      let dh := distance cHi k
      some (if dl < dh then cLo else cHi, k)
    | true, false => some (cLo, k)
    | false, true => some (cHi, k)
    | false, false => none
  let (c, k) := found.getD (v * Nat.pow 10 (-(t - 16)).toNat / (Nat.pow 10 (t - 16).toNat * den), t - 16)
  let (ds, len) := trimmedDigits c
  ⟨ds, k + len⟩

def digitText (ds : List Nat) : String :=
  String.ofList (ds.map fun d => Char.ofNat (48 + d))

def zeros (n : Nat) : String := String.ofList (List.replicate n '0')

def positional (d : Digits) (minFrac : Nat) : String :=
  let len := d.digits.length
  if d.point ≤ 0 then "0." ++ zeros (-d.point).toNat ++ digitText d.digits
  else if d.point < len then
    digitText (d.digits.take d.point.toNat) ++ "." ++ digitText (d.digits.drop d.point.toNat)
  else
    digitText d.digits ++ zeros (d.point.toNat - len) ++ (if minFrac > 0 then ".0" else "")

def scientific (d : Digits) : String :=
  let first := digitText (d.digits.take 1)
  let rest := d.digits.drop 1
  first ++ (if rest.isEmpty then "" else "." ++ digitText rest) ++ "e" ++ toString (d.point - 1)

def plainText (bits : UInt64) : String :=
  let (neg, m, e) := decompose bits
  let sign := if neg then "-" else ""
  if isNaN bits then "NaN"
  else if isSpecial bits then sign ++ "inf"
  else if m = 0 then sign ++ "0"
  else sign ++ positional (shortest m e) 0

/-- The diagnostic text of a double: at least one fractional digit, an exponent for
magnitudes below `1e-4` or from `1e16` on. -/
def diagnosticText (bits : UInt64) : String :=
  let (neg, m, e) := decompose bits
  let sign := if neg then "-" else ""
  if isNaN bits then "NaN"
  else if isSpecial bits then sign ++ "inf"
  else if m = 0 then sign ++ "0.0"
  else
    let d := shortest m e
    -- `d.point ≤ -4` means below `1e-4`; `d.point ≥ 17` means at least `1e16`
    if d.point ≤ -4 ∨ d.point ≥ 17 then sign ++ scientific d
    else sign ++ positional d 1

end ObjectPersistence.Binary64
