/-!
# Binary floating point numbers

The finite numbers of the 64-bit binary format, held exactly as a sign, a mantissa and a power of
two, and the rounding of a fraction to the nearest of them.
-/

namespace CircuitRom

/-- The finite number `± mantissa * 2 ^ exponent`.

Numbers built here have `mantissa < 2 ^ 53` and `-1074 ≤ exponent`, and a mantissa below `2 ^ 52`
only at exponent `-1074`, so that each number has one form.  Zero keeps its sign. -/
structure Binary64 where
  /-- Whether the number stands below zero; true also for the negative zero. -/
  negative : Bool
  /-- The significant bits. -/
  mantissa : Nat
  /-- The power of two that the mantissa counts. -/
  exponent : Int
deriving DecidableEq, Repr

namespace Binary64

/-- The least exponent. -/
def minExponent : Int := -1074

/-- The greatest exponent. -/
def maxExponent : Int := 971

/-- The least mantissa of 53 bits, which is `2 ^ 52`. -/
def leastFull : Nat := 4503599627370496

/-- Zero. -/
def zero : Binary64 := ⟨false, 0, minExponent⟩

/-- Whether the number is a zero of either sign. -/
def isZero (x : Binary64) : Bool := x.mantissa == 0

/-- The number with the other sign. -/
def neg (x : Binary64) : Binary64 := { x with negative := !x.negative }

/-! ## Rounding -/

/-- The integer nearest to `n / d`; a half goes to the even neighbour. -/
def nearest (n d : Nat) : Nat :=
  let q := n / d
  let r := n % d
  if 2 * r < d ∨ (2 * r = d ∧ q % 2 = 0) then q else q + 1

/-- `n * 2 ^ e` as a numerator and a denominator. -/
def scaled (n : Nat) (e : Int) : Nat × Nat := (n * Nat.pow 2 e.toNat, Nat.pow 2 (-e).toNat)

/-- The exponent at which `n / d` has 53 bits before the binary point, and at least the least. -/
def exponentOf (n d : Nat) : Int :=
  let guess : Int := (n.log2 : Int) - d.log2 - 52
  let (low, unit) := scaled (leastFull * d) guess
  max minExponent (if n * unit < low then guess - 1 else guess)

/-- The number nearest to the fraction `n / d`, a half going to the even mantissa, or `none` if
the fraction is too large for the format. -/
def ofRatio? (n d : Nat) : Option Binary64 :=
  if n = 0 then some zero
  else
    let e := exponentOf n d
    let (unit, top) := scaled d e
    let m := nearest (n * top) unit
    let x : Binary64 := if m = 2 * leastFull then ⟨false, leastFull, e + 1⟩ else ⟨false, m, e⟩
    if x.exponent ≤ maxExponent then some x else none

/-- The number nearest to an integer.  Integers here have at most 64 bits, so there is one. -/
def ofInt (i : Int) : Binary64 :=
  let x := (ofRatio? i.natAbs 1).getD zero
  if i < 0 then x.neg else x

/-! ## Arithmetic -/

/-- The rounded product of two non-negative numbers. -/
def mul? (x y : Binary64) : Option Binary64 :=
  let (n, d) := scaled (x.mantissa * y.mantissa) (x.exponent + y.exponent)
  ofRatio? n d

/-- The rounded quotient of two non-negative numbers. -/
def div? (x y : Binary64) : Option Binary64 :=
  let (n, d) := scaled x.mantissa (x.exponent - y.exponent)
  ofRatio? n (d * y.mantissa)

/-- The number nearest to `10 ^ k`. -/
def powerOfTen? (k : Nat) : Option Binary64 := ofRatio? (Nat.pow 10 k) 1

example : ofInt 1 = ⟨false, 2 ^ 52, -52⟩ := by decide +kernel
example : ofInt (-3) = ⟨true, 3 * 2 ^ 51, -51⟩ := by decide +kernel
example : ofInt (2 ^ 53 + 1) = ofInt (2 ^ 53) := by decide +kernel
example : ofRatio? 1 (2 ^ 1074) = some ⟨false, 1, -1074⟩ := by decide +kernel
example : ofRatio? 1 (2 ^ 1075) = some zero := by decide +kernel
example : (powerOfTen? 308).isSome ∧ (powerOfTen? 309).isNone := by decide +kernel

end Binary64
end CircuitRom
