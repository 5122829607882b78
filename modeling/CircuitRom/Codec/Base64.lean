/-!
# Base 64

Bytes written with 64 characters, three bytes by four characters.  A shorter group at the end is
filled up with `=`.  Reading accepts only what writing produces: the filling must be there, and the
bits that belong to no byte must be zero.
-/

namespace CircuitRom
namespace Base64

/-! ## Digits -/

/-- The character for a number below 64. -/
def digit (n : Nat) : Char :=
  if n < 26 then Char.ofNat ('A'.toNat + n)
  else if n < 52 then Char.ofNat ('a'.toNat + (n - 26))
  else if n < 62 then Char.ofNat ('0'.toNat + (n - 52))
  else if n = 62 then '+'
  else '/'

/-- The number that a character stands for. -/
def value? (c : Char) : Option Nat :=
  if 'A' ≤ c ∧ c ≤ 'Z' then some (c.toNat - 'A'.toNat)
  else if 'a' ≤ c ∧ c ≤ 'z' then some (c.toNat - 'a'.toNat + 26)
  else if '0' ≤ c ∧ c ≤ '9' then some (c.toNat - '0'.toNat + 52)
  else if c = '+' then some 62
  else if c = '/' then some 63
  else none

/-- Reading a digit gives back the number it was written for. -/
theorem value?_digit : ∀ n < 64, value? (digit n) = some n := by decide

/-- The filling is no digit. -/
theorem value?_fill : value? '=' = none := by decide

/-! ## Writing -/

/-- The characters of three bytes. -/
def group3 (a b c : Nat) : List Char :=
  [digit (a / 4), digit (a % 4 * 16 + b / 16), digit (b % 16 * 4 + c / 64), digit (c % 64)]

/-- The characters of two bytes. -/
def group2 (a b : Nat) : List Char :=
  [digit (a / 4), digit (a % 4 * 16 + b / 16), digit (b % 16 * 4), '=']

/-- The characters of one byte. -/
def group1 (a : Nat) : List Char := [digit (a / 4), digit (a % 4 * 16), '=', '=']

/-- Write bytes after characters that are kept in reverse. -/
def encodeOnto (written : List Char) : List UInt8 → List Char
  | a :: b :: c :: rest =>
    encodeOnto ((group3 a.toNat b.toNat c.toNat).reverse ++ written) rest
  | [a, b] => (group2 a.toNat b.toNat).reverse ++ written
  | [a] => (group1 a.toNat).reverse ++ written
  | [] => written

/-- The characters of bytes. -/
def encode (bytes : List UInt8) : List Char := (encodeOnto [] bytes).reverse

/-! ## Reading -/

/-- The three bytes of four numbers below 64. -/
def bytes3 (p q r s : Nat) : List UInt8 :=
  [UInt8.ofNat (p * 4 + q / 16), UInt8.ofNat (q % 16 * 16 + r / 4), UInt8.ofNat (r % 4 * 64 + s)]

/-- Read a last group that stands for two bytes. -/
def read2? (a b c : Char) : Option (List UInt8) :=
  match value? a, value? b, value? c with
  | some p, some q, some r =>
    if r % 4 = 0 then some [UInt8.ofNat (p * 4 + q / 16), UInt8.ofNat (q % 16 * 16 + r / 4)]
    else none
  | _, _, _ => none

/-- Read a last group that stands for one byte. -/
def read1? (a b : Char) : Option (List UInt8) :=
  match value? a, value? b with
  | some p, some q => if q % 16 = 0 then some [UInt8.ofNat (p * 4 + q / 16)] else none
  | _, _ => none

/-- Read a group that stands for three bytes. -/
def read3? (a b c d : Char) : Option (List UInt8) :=
  match value? a, value? b, value? c, value? d with
  | some p, some q, some r, some s => some (bytes3 p q r s)
  | _, _, _, _ => none

/-- Read characters after bytes that are kept in reverse. -/
def decodeOnto? (done : List UInt8) : List Char → Option (List UInt8)
  | [] => some done.reverse
  | [a, b, '=', '='] => (read1? a b).map (done.reverse ++ ·)
  | [a, b, c, '='] => (read2? a b c).map (done.reverse ++ ·)
  | a :: b :: c :: d :: rest =>
    match read3? a b c d with
    | none => none
    | some bytes => decodeOnto? (bytes.reverse ++ done) rest
  | _ => none

/-- The bytes that characters stand for. -/
def decode? (text : List Char) : Option (List UInt8) := decodeOnto? [] text

example : encode [0x61, 0x62, 0x63, 0x64] = "YWJjZA==".toList := by decide
example : decode? "//8=".toList = some [255, 255] := by decide
example : (decode? "//9=".toList, decode? "YQ".toList, decode? "Y=Q=".toList) =
    (none, none, none) := by decide

/-! ## Faults -/

/-- Why characters stand for no bytes.  Places count the bytes of the text. -/
inductive Fault where
  /-- A byte that is no digit, or filling in the wrong place. -/
  | symbol (byte place : Nat)
  /-- A last group of a single digit. -/
  | length (digits : Nat)
  /-- A last digit with bits that belong to no byte. -/
  | lastSymbol (byte place : Nat)
  /-- Too little filling. -/
  | filling
deriving DecidableEq, Repr

/-- The wording of a fault. -/
def Fault.message : Fault → String
  | symbol byte place => s!"Invalid symbol {byte}, offset {place}."
  | length digits => s!"Invalid input length: {digits}"
  | lastSymbol byte place => s!"Invalid last symbol {byte}, offset {place}."
  | filling => "Invalid padding"

/-- The byte of the filling. -/
def fillByte : Nat := '='.toNat

/-- Whether a byte is a digit. -/
def isDigit (byte : Nat) : Bool := (value? (Char.ofNat byte)).isSome

/-- The first byte that is no digit, among bytes of which the first has the given place. -/
def strayFrom? (place : Nat) : List Nat → Option Fault
  | [] => none
  | byte :: rest => if isDigit byte then strayFrom? (place + 1) rest else some (.symbol byte place)

/-- The fault of a last group that starts at a place. -/
def lastFault (place : Nat) (group : List Nat) : Fault :=
  let digits := group.takeWhile (· ≠ fillByte)
  let n := digits.length
  match strayFrom? place digits with
  | some fault => fault
  | none =>
    if n < group.length ∧ (n < 2 ∨ (group.drop n).any (· ≠ fillByte)) then
      .symbol fillByte (place + n)
    else if n < 2 then .length (place + n)
    else if group.length % 4 ≠ 0 then .filling
    else .lastSymbol (digits.getLast?.getD fillByte) (place + n - 1)

/-- The fault of bytes that cannot be read.  A last byte that stands alone is looked at first, and
then one group after the other. -/
def faultOf (bytes : List Nat) : Fault :=
  let rest := bytes.length % 4
  let start := bytes.length - (if rest = 0 then 4 else rest)
  let last := bytes.getLast?.getD fillByte
  if rest = 1 ∧ last ≠ fillByte ∧ !isDigit last then .symbol last (bytes.length - 1)
  else (strayFrom? 0 (bytes.take start)).getD (lastFault start (bytes.drop start))

example : ["Y", "YW", "YQ=", "YR==", "Y=Q=", "Y!JjZA==", "YWJj\n", "YQ==YQ==", "YQ=a", "===="].map
    (fun text => faultOf (text.toList.map Char.toNat)) =
    [.length 1, .filling, .filling, .lastSymbol 82 1, .symbol 61 1, .symbol 33 1, .symbol 10 4,
      .symbol 61 2, .symbol 61 2, .symbol 61 0] := by decide

end Base64
end CircuitRom
