/-!
# The Adler checksum

Two sums over the bytes, modulo the largest prime of 16 bits: one of the bytes, and one of all
values that the first sum takes.
-/

namespace CircuitRom
namespace Adler

/-- The modulus of both sums. -/
def modulus : Nat := 65521

/-- The two sums. -/
structure Sums where
  /-- One more than the sum of the bytes. -/
  first : Nat := 1
  /-- The sum of the values of `first`. -/
  second : Nat := 0
deriving DecidableEq, Repr

/-- The sums with one byte more. -/
def Sums.add (sums : Sums) (byte : UInt8) : Sums :=
  let first := (sums.first + byte.toNat) % modulus
  ⟨first, (sums.second + first) % modulus⟩

/-- The sums of bytes. -/
def sums (bytes : List UInt8) : Sums := bytes.foldl Sums.add {}

/-- The four bytes of a checksum, the highest first. -/
def checksum (bytes : List UInt8) : List UInt8 :=
  let s := sums bytes
  [UInt8.ofNat (s.second / 256), UInt8.ofNat (s.second % 256), UInt8.ofNat (s.first / 256),
    UInt8.ofNat (s.first % 256)]

example : checksum [] = [0, 0, 0, 1] := by decide
example : checksum [0x7b, 0x7d] = [0x01, 0x75, 0x00, 0xf9] := by decide

end Adler
end CircuitRom
