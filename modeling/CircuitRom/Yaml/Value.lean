import CircuitRom.Number.Decimal
import CircuitRom.Yaml.Node

/-!
# What scalars stand for

A plain scalar without a tag stands for nothing, a truth value or a number if it looks like one, and
any other scalar for its text.
-/

namespace CircuitRom
namespace Yaml

/-- What a scalar stands for. -/
inductive Value where
  /-- Nothing. -/
  | null
  /-- A truth value. -/
  | boolean (value : Bool)
  /-- A whole number. -/
  | integer (value : Int)
  /-- A number. -/
  | real (value : Binary64)
  /-- An infinite number. -/
  | infinity (negative : Bool)
  /-- What is no number. -/
  | notANumber
  /-- A text. -/
  | text (value : String)
deriving DecidableEq, Repr

namespace Value

/-! ## Words -/

/-- Whether a text is a word for nothing. -/
def isNullWord (text : String) : Bool := ["~", "null", "Null", "NULL"].contains text

/-- The truth value that a text is a word for. -/
def boolean? (text : String) : Option Bool :=
  if ["true", "True", "TRUE"].contains text then some true
  else if ["false", "False", "FALSE"].contains text then some false
  else none

/-! ## Whole numbers -/

/-- The least whole number. -/
def leastInteger : Int := -170141183460469231731687303715884105728

/-- The bound of whole numbers, exclusive. -/
def integerLimit : Int := 340282366920938463463374607431768211456

/-- Read the digits that a text consists of.  They may be marked as digits of another radix;
decimal digits do not start with a zero. -/
def digits? : List Char → Option Nat
  | '0' :: 'x' :: rest => Text.number? 16 rest
  | '0' :: 'o' :: rest => Text.number? 8 rest
  | '0' :: 'b' :: rest => Text.number? 2 rest
  | '0' :: _ :: _ => none
  | cs => Text.number? 10 cs

/-- The whole number that a text stands for. -/
def integer? (text : String) : Option Int :=
  let value? : Option Int :=
    match text.toList with
    | '-' :: rest => (digits? rest).map fun n => -n
    | '+' :: rest => (digits? rest).map Int.ofNat
    | cs => (digits? cs).map Int.ofNat
  value?.filter fun n => leastInteger ≤ n ∧ n < integerLimit

/-! ## Numbers -/

/-- Whether a text is a row of digits that starts with a needless zero. -/
def isPadded (text : String) : Bool :=
  let digits :=
    match text.toList with
    | '-' :: rest => rest
    | '+' :: rest => rest
    | cs => cs
  digits.head? == some '0' && decide (1 < digits.length) && digits.all Char.isDigit

/-- The number that a text stands for, with its sign. -/
def number? (text : String) : Option Value :=
  let unsigned :=
    match text.toList with
    | '+' :: rest => rest
    | cs => cs
  if [".inf", ".Inf", ".INF"].contains (String.ofList unsigned) then some (.infinity false)
  else if ["-.inf", "-.Inf", "-.INF"].contains text then some (.infinity true)
  else if [".nan", ".NaN", ".NAN"].contains text then some .notANumber
  else if unsigned.length < text.length ∧ unsigned.head? = some '-' then none
  else (Decimal.readSigned? unsigned).map .real

/-! ## Scalars -/

/-- What a plain scalar without a tag stands for. -/
def ofPlain (text : String) : Value :=
  if text = "" ∨ isNullWord text then .null
  else
    match boolean? text, integer? text with
    | some b, _ => .boolean b
    | none, some n => .integer n
    | none, none => if isPadded text then .text text else (number? text).getD (.text text)

/-- The tag of a type that all documents know. -/
def tagOf (type : String) : String := "tag:yaml.org,2002:" ++ type

/-- What a scalar stands for.  A tag may say what it has to be; the error is then what that is. -/
def ofScalar (s : Scalar) : Except String Value :=
  let expect (type : String) : Option Value → Except String Value
    | some value => .ok value
    | none => .error type
  match s.tag with
  | none => .ok (if s.style = .plain then ofPlain s.text else .text s.text)
  | some tag =>
    if tag = tagOf "bool" then expect "a boolean" ((boolean? s.text).map .boolean)
    else if tag = tagOf "int" then expect "an integer" ((integer? s.text).map .integer)
    else if tag = tagOf "float" then expect "a float" (number? s.text)
    else if tag = tagOf "null" then
      expect "null" (if isNullWord s.text then some .null else none)
    else if tag.toList.head? = some '!' ∧ s.style = .plain then .ok (ofPlain s.text)
    else .ok (.text s.text)

example : ["~", "", "TRUE", "yes", "12", "-0x1F", "+0b11", "007", "-00"].map ofPlain =
    [.null, .null, .boolean true, .text "yes", .integer 12, .integer (-31), .integer 3,
      .text "007", .text "-00"] := by decide +kernel
example : ["-.inf", ".NaN", "+-1", "0x", "1.5e3", "1e999"].map ofPlain =
    [.infinity true, .notANumber, .text "+-1", .text "0x", .real (Binary64.ofInt 1500),
      .text "1e999"] := by decide +kernel

end Value
end Yaml
end CircuitRom
