import CircuitRom.Text.Digits
import CircuitRom.Text.Letters

/-!
# Integer literals

A literal is an optional `-`, an optional `0x` or `0b` in either case, and one or more digits of
that radix (ten without a mark).  Its value must fit in a signed 32-bit word.
-/

namespace CircuitRom

/-- Why a text is no literal. -/
inductive LiteralFault
  /-- The text does not have the form of a literal. -/
  | malformed
  /-- The value does not fit in 32 bits. -/
  | outOfRange
deriving DecidableEq, Repr

namespace Literal

/-- The sign, set apart from the characters after it. -/
def splitSign : List Char → Bool × List Char
  | '-' :: rest => (true, rest)
  | cs => (false, cs)

/-- The radix that the mark in front of the digits asks for, and the digits. -/
def splitRadix : List Char → Nat × List Char
  | '0' :: 'x' :: rest => (16, rest)
  | '0' :: 'b' :: rest => (2, rest)
  | cs => (10, cs)

/-- The integer that a text of the right form denotes. -/
def value? (text : String) : Option Int :=
  let (negative, body) := splitSign text.toList
  let (radix, digits) := splitRadix (body.map Char.toLower)
  (Text.number? radix digits).map fun n => if negative then -(n : Int) else (n : Int)

/-- Does the integer fit in a signed 32-bit word? -/
def inRange (n : Int) : Bool := -2147483648 ≤ n && n ≤ 2147483647

/-- The word that a literal denotes. -/
def parse (text : String) : Except LiteralFault Int32 :=
  match value? text with
  | none => .error .malformed
  | some n => if inRange n then .ok (Int32.ofInt n) else .error .outOfRange

example : (parse "-0X1f").toOption = some (-31) := by decide
example : parse "0b102" = .error .malformed := by rfl
example : parse "2147483648" = .error .outOfRange := by rfl

end Literal
end CircuitRom
