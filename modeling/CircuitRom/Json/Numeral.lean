import CircuitRom.Json
import CircuitRom.Text.Digits

/-!
# Numerals

A number as it is written in a JSON text, and the number it stands for.  The written digits are
gathered into 64 bits; digits beyond that only move the decimal point.
-/

namespace CircuitRom

/-- A written number. -/
structure Numeral where
  /-- Whether a `-` stands in front. -/
  negative : Bool := false
  /-- The digits before the point. -/
  whole : List Char
  /-- The digits after the point, if there is a point. -/
  fraction : Option (List Char) := none
  /-- The power of ten, if one is written. -/
  exponent : Option Int := none
deriving DecidableEq, Repr

namespace Numeral

/-! ## Value -/

/-- Digits are gathered up to this bound, exclusive. -/
def gatherLimit : Nat := 18446744073709551616

/-- Gather digits as long as they fit, and give back those that do not. -/
def gather (n : Nat) : List Char → Nat × List Char
  | [] => (n, [])
  | c :: rest =>
    let next := n * 10 + (c.toNat - '0'.toNat)
    if next < gatherLimit then gather next rest else (n, c :: rest)

/-- The greatest power of ten by which a number is multiplied or divided in one step. -/
def greatestPower : Nat := 308

/-- Divide by a power of ten, in one step. -/
def lower? (x : Binary64) (power : Nat) : Option Binary64 :=
  (Binary64.powerOfTen? power).bind x.div?

/-- The number `n * 10 ^ e`, computed in floating point; `none` if it is too large. -/
def scale? (n : Nat) (e : Int) : Option Binary64 :=
  let x := Binary64.ofInt n
  if n = 0 then some x
  else if greatestPower < e then none
  else if 0 ≤ e then (Binary64.powerOfTen? e.toNat).bind x.mul?
  else
    let power := (-e).toNat
    if power ≤ greatestPower then lower? x power
    else if power ≤ 2 * greatestPower then
      (lower? x greatestPower).bind fun y => lower? y (power - greatestPower)
    else some Binary64.zero

/-- The number that a numeral stands for.  It is whole if neither a point nor a power of ten is
written and the digits fit in 64 bits with their sign; a negative zero is not whole. -/
def number? (numeral : Numeral) : Option Number :=
  let signed (x : Binary64) : Number := .real (if numeral.negative then x.neg else x)
  match gather 0 numeral.whole, numeral.fraction, numeral.exponent with
  | (n, []), none, none =>
    if !numeral.negative then some (.int n)
    else if n = 0 ∨ 9223372036854775808 < n then some (signed (.ofInt n))
    else some (.int (-n))
  | (n, extra), fraction, exponent =>
    let digits := fraction.getD []
    let (n, unread) := gather n digits
    let e := (extra.length : Int) - (digits.length - unread.length) + exponent.getD 0
    (scale? n e).map signed

/-! ## Reading -/

/-- Whether a character is a decimal digit. -/
def isDigit (c : Char) : Bool := decide ('0' ≤ c ∧ c ≤ '9')

/-- Read one or more digits. -/
def readDigits? (cs : List Char) : Option (List Char × List Char) :=
  match cs.takeWhile isDigit with
  | [] => none
  | digits => some (digits, cs.dropWhile isDigit)

/-- Read the digits before the point: a zero stands alone. -/
def readWhole? (cs : List Char) : Option (List Char × List Char) :=
  (readDigits? cs).filter fun (digits, _) => digits.head? ≠ some '0' ∨ digits.length = 1

/-- Read a fraction, if a point follows. -/
def readFraction? : List Char → Option (Option (List Char) × List Char)
  | '.' :: rest => (readDigits? rest).map fun (digits, rest) => (some digits, rest)
  | rest => some (none, rest)

/-- Read the digits of a power of ten. -/
def readPower? (negative : Bool) (cs : List Char) : Option (Option Int × List Char) :=
  (readDigits? cs).map fun (digits, rest) =>
    let power : Int := (Text.digitsFrom? 10 0 digits).getD 0
    (some (if negative then -power else power), rest)

/-- Read a power of ten, if one follows. -/
def readExponent? : List Char → Option (Option Int × List Char)
  | c :: rest =>
    if c = 'e' ∨ c = 'E' then
      match rest with
      | '+' :: rest => readPower? false rest
      | '-' :: rest => readPower? true rest
      | rest => readPower? false rest
    else some (none, c :: rest)
  | [] => some (none, [])

/-- Read a numeral without its sign. -/
def readUnsigned? (negative : Bool) (cs : List Char) : Option (Numeral × List Char) := do
  let (whole, cs) ← readWhole? cs
  let (fraction, cs) ← readFraction? cs
  let (exponent, cs) ← readExponent? cs
  return (⟨negative, whole, fraction, exponent⟩, cs)

/-- Read a numeral from the front of a text. -/
def read? : List Char → Option (Numeral × List Char)
  | '-' :: rest => readUnsigned? true rest
  | cs => readUnsigned? false cs

/-- The number written by a whole text. -/
def parse? (text : String) : Option Number :=
  match read? text.toList with
  | some (numeral, []) => numeral.number?
  | _ => none

example : parse? "-12" = some (.int (-12)) := by decide +kernel
example : parse? "-0" = some (.real Binary64.zero.neg) := by decide +kernel
example : parse? "18446744073709551615" = some (.int 18446744073709551615) := by decide +kernel
example : (parse? "18446744073709551616").map Number.text = some "1.8446744073709552e+19" := by
  decide +kernel
example : (parse? "2.5e-1").map Number.text = some "0.25" := by decide +kernel
example : (parse? "1e308").isSome ∧ (parse? "1e309").isNone := by decide +kernel
example : parse? "0e999" = some (.real .zero) := by decide +kernel
example : (parse? "01", parse? "1.", parse? ".5", parse? "1e", parse? "+1") =
    (none, none, none, none, none) := by decide +kernel

end Numeral
end CircuitRom
