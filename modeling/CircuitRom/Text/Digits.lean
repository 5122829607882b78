/-!
# Digits

Unsigned numbers written in a radix of at most sixteen.
-/

namespace CircuitRom
namespace Text

/-- The value of a digit in the given radix; letters of either case stand for ten to fifteen. -/
def digit? (radix : Nat) (c : Char) : Option Nat :=
  let value? :=
    if '0' ≤ c ∧ c ≤ '9' then some (c.toNat - '0'.toNat)
    else if 'a' ≤ c ∧ c ≤ 'f' then some (c.toNat - 'a'.toNat + 10)
    else if 'A' ≤ c ∧ c ≤ 'F' then some (c.toNat - 'A'.toNat + 10)
    else none
  value?.filter (· < radix)

/-- The number written after `n` has been read: each digit counts `radix` times the next. -/
def digitsFrom? (radix : Nat) (n : Nat) : List Char → Option Nat
  | [] => some n
  | c :: rest =>
    match digit? radix c with
    | none => none
    | some d => digitsFrom? radix (n * radix + d) rest

/-- The number written by one or more digits of the radix. -/
def number? (radix : Nat) (cs : List Char) : Option Nat :=
  if cs.isEmpty then none else digitsFrom? radix 0 cs

/-- Counts are kept in 64 bits. -/
def countLimit : Nat := 18446744073709551616

/-- A count: an optional `+` and decimal digits, with a value below `countLimit`. -/
def count? (text : String) : Option Nat :=
  let digits :=
    match text.toList with
    | '+' :: rest => rest
    | cs => cs
  (number? 10 digits).filter (· < countLimit)

example : number? 16 "fF".toList = some 255 := by decide
example : count? "+007" = some 7 := by decide
example : (count? "+", count? "-1", count? "18446744073709551616") = (none, none, none) := by decide

end Text
end CircuitRom
