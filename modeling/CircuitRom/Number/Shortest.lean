import CircuitRom.Number.Binary64

/-!
# Shortest decimals

A number is written with the fewest decimal digits that read back as the same number, and among
those with the digits nearest to it.  The digits are found by comparing candidates with the ends
of the interval of reals that round to the number, in exact integer arithmetic.
-/

namespace CircuitRom

/-- The decimal `digits * 10 ^ exponent`. -/
structure Decimal where
  /-- The digits, read as one natural number. -/
  digits : Nat
  /-- The power of ten that the digits count. -/
  exponent : Int
deriving DecidableEq, Repr

namespace Decimal

/-- Compare `d` with `n * 2 ^ e`. -/
def compareBinary (d : Decimal) (n : Nat) (e : Int) : Ordering :=
  compare (d.digits * Nat.pow 10 d.exponent.toNat * Nat.pow 2 (-e).toNat)
    (n * Nat.pow 2 e.toNat * Nat.pow 10 (-d.exponent).toNat)

/-- Move up to `fuel` trailing zeros of the digits into the exponent. -/
def strip : Nat → Decimal → Decimal
  | 0, d => d
  | fuel + 1, d =>
    if d.digits ≠ 0 ∧ d.digits % 10 = 0 then strip fuel ⟨d.digits / 10, d.exponent + 1⟩ else d

end Decimal

namespace Binary64

/-! ## The interval of a number -/

/-- Whether the number below is only half as far away as the number above. -/
def narrowBelow (x : Binary64) : Bool :=
  x.mantissa == leastFull && decide (minExponent < x.exponent)

/-- Whether the decimal rounds to the magnitude of the number.  The ends of the interval round to
it exactly if its mantissa is even. -/
def readsBack (x : Binary64) (d : Decimal) : Bool :=
  let low := if x.narrowBelow then 4 * x.mantissa - 1 else 4 * x.mantissa - 2
  let high := 4 * x.mantissa + 2
  let closed := x.mantissa % 2 == 0
  let belowEnd := d.compareBinary low (x.exponent - 2)
  let aboveEnd := d.compareBinary high (x.exponent - 2)
  (belowEnd == .gt || (closed && belowEnd == .eq)) &&
    (aboveEnd == .lt || (closed && aboveEnd == .eq))

/-! ## The search -/

/-- The least `k` with the magnitude below `10 ^ k`, searched upwards from `k` for `fuel` steps. -/
def scaleFrom (x : Binary64) : Nat → Int → Int
  | 0, k => k
  | fuel + 1, k =>
    if Decimal.compareBinary ⟨1, k⟩ x.mantissa x.exponent = .gt then k
    else scaleFrom x fuel (k + 1)

/-- The least `k` with the magnitude below `10 ^ k`. -/
def scale (x : Binary64) : Int :=
  let bits : Int := x.mantissa.log2 + x.exponent
  scaleFrom x 4 (bits * 30103 / 100000 - 1)

/-- The decimal nearest to the number among its two neighbours on the grid `10 ^ e` that read
back; on a tie the even one. -/
def onGrid? (x : Binary64) (e : Int) : Option Decimal :=
  let n := x.mantissa * Nat.pow 2 x.exponent.toNat * Nat.pow 10 (-e).toNat
  let d := Nat.pow 2 (-x.exponent).toNat * Nat.pow 10 e.toNat
  let low : Decimal := ⟨n / d, e⟩
  let high : Decimal := ⟨n / d + 1, e⟩
  match x.readsBack low, x.readsBack high with
  | true, true => some ⟨nearest n d, e⟩
  | true, false => some low
  | false, true => some high
  | false, false => none

/-- The exact value as a decimal. -/
def exact (x : Binary64) : Decimal :=
  ⟨x.mantissa * Nat.pow 2 x.exponent.toNat * Nat.pow 5 (-x.exponent).toNat, min x.exponent 0⟩

/-- The shortest decimal that reads back as the magnitude of a number other than zero. -/
def shortest (x : Binary64) : Decimal :=
  let k := x.scale
  let found? := (List.range 17).findSome? fun (i : Nat) => x.onGrid? (k - (i + 1))
  (found?.getD x.exact).strip 20

/-! ## Layout -/

/-- Numbers of at most this many digits before the point are written in full. -/
def longestWhole : Int := 16

/-- Numbers below one with fewer than this many zeros after the point are written in full. -/
def mostZeros : Int := 5

/-- The digits of a decimal with the point put where it belongs.  A whole number ends in `.0`. -/
def inFull (d : Decimal) : List Char :=
  let digits := Nat.toDigits 10 d.digits
  let whole : Int := digits.length + d.exponent
  if 0 ≤ d.exponent then digits ++ List.replicate d.exponent.toNat '0' ++ ['.', '0']
  else if 0 < whole then digits.take whole.toNat ++ '.' :: digits.drop whole.toNat
  else '0' :: '.' :: List.replicate (-whole).toNat '0' ++ digits

/-- The digits of a decimal with the point after the first, and an exponent with its sign and at
least two digits. -/
def withPower (d : Decimal) : List Char :=
  let digits := Nat.toDigits 10 d.digits
  let tail := digits.drop 1
  let power : Int := digits.length + d.exponent - 1
  let written := Nat.toDigits 10 power.natAbs
  digits.take 1 ++ (if tail.isEmpty then [] else '.' :: tail) ++
    ['e', if power < 0 then '-' else '+'] ++ List.replicate (2 - written.length) '0' ++ written

/-- The text of a decimal, in full unless it is too long or too small for that. -/
def layOut (d : Decimal) : List Char :=
  let whole : Int := (Nat.toDigits 10 d.digits).length + d.exponent
  if -mostZeros < whole ∧ whole ≤ longestWhole then inFull d else withPower d

/-- The text of a number, given the layout of its shortest decimal. -/
def textBy (layOut : Decimal → List Char) (x : Binary64) : String :=
  let magnitude := if x.isZero then "0.0" else String.ofList (layOut x.shortest)
  if x.negative then "-" ++ magnitude else magnitude

/-- The text of a number. -/
def text (x : Binary64) : String := x.textBy layOut

/-- The text of a number without an exponent. -/
def fullText (x : Binary64) : String := x.textBy inFull

example : (ofInt (-4)).text = "-4.0" := by decide +kernel
example : (zero.text, zero.neg.text) = ("0.0", "-0.0") := by decide +kernel
example : (ofRatio? 1 4).map text = some "0.25" := by decide +kernel
example : (ofRatio? 1 100000).map text = some "0.00001" := by decide +kernel
example : (ofRatio? 3 2000000).map text = some "1.5e-06" := by decide +kernel
example : (ofRatio? 3 10).map text = some "0.3" := by decide +kernel
example : (ofInt (10 ^ 15)).text = "1000000000000000.0" := by decide +kernel
example : (ofInt (10 ^ 16)).text = "1e+16" := by decide +kernel
example : (powerOfTen? 23).map text = some "1e+23" := by decide +kernel
example : (powerOfTen? 300).map text = some "1e+300" := by decide +kernel
example : (ofInt 18446744073709551616).text = "1.8446744073709552e+19" := by decide +kernel
example : (ofRatio? 1 (2 ^ 1074)).map text = some "5e-324" := by decide +kernel
example : (powerOfTen? 20).map fullText = some "100000000000000000000.0" := by decide +kernel
example : (ofRatio? 1 10000000).map fullText = some "0.0000001" := by decide +kernel

end Binary64
end CircuitRom
