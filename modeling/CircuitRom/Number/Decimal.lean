import CircuitRom.Number.Shortest
import CircuitRom.Text.Digits

/-!
# Reading decimals

A decimal has digits before or after a point, or both, and perhaps a power of ten.  It is rounded
once to the nearest number.
-/

namespace CircuitRom
namespace Decimal

/-- Decimals of more digits before the point are too large for any number. -/
def mostDigits : Int := 310

/-- Decimals with more zeros after the point are too small for any number but zero. -/
def leastDigits : Int := -330

/-- The nearest number, or `none` if the decimal is too large. -/
def toBinary64? (d : Decimal) : Option Binary64 :=
  let whole : Int := (Nat.toDigits 10 d.digits).length + d.exponent
  if d.digits = 0 ∨ whole < leastDigits then some .zero
  else if mostDigits < whole then none
  else
    Binary64.ofRatio? (d.digits * Nat.pow 10 d.exponent.toNat) (Nat.pow 10 (-d.exponent).toNat)

/-- Read the power of ten that a text consists of. -/
def readPower? : List Char → Option Int
  | [] => some 0
  | c :: rest =>
    if c = 'e' ∨ c = 'E' then
      match rest with
      | '+' :: digits => (Text.number? 10 digits).map Int.ofNat
      | '-' :: digits => (Text.number? 10 digits).map fun n => -Int.ofNat n
      | digits => (Text.number? 10 digits).map Int.ofNat
    else none

/-- Read the decimal that a text consists of. -/
def read? (cs : List Char) : Option Decimal := do
  let whole := cs.takeWhile Char.isDigit
  let rest := cs.dropWhile Char.isDigit
  let (fraction, rest) :=
    match rest with
    | '.' :: rest => (rest.takeWhile Char.isDigit, rest.dropWhile Char.isDigit)
    | rest => ([], rest)
  let digits ← Text.number? 10 (whole ++ fraction)
  let power ← readPower? rest
  return ⟨digits, power - fraction.length⟩

/-- Read the number that a text consists of, which may start with a minus sign. -/
def readSigned? : List Char → Option Binary64
  | '-' :: rest => ((read? rest).bind toBinary64?).map Binary64.neg
  | cs => (read? cs).bind toBinary64?

example : ["1.5", ".5", "5.", "-12e-1", "1E+2", "0e999", "1e-999"].map
    (fun text => (readSigned? text.toList).map Binary64.text) =
    [some "1.5", some "0.5", some "5.0", some "-1.2", some "100.0", some "0.0", some "0.0"] := by
  decide +kernel
example : ["", ".", "-", "e5", "1e", "1e+", "--1", "1_0", "1e309", "0x1"].all
    (fun text => (readSigned? text.toList).isNone) := by decide +kernel

end Decimal
end CircuitRom
