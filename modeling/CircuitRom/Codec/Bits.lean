/-!
# Bits of a byte string

Bits are taken from the low end of each byte.
-/

namespace CircuitRom

/-- What is left to read of a byte string. -/
structure BitSource where
  /-- The bits left of the byte that was begun. -/
  pending : List Bool := []
  /-- The bytes after it. -/
  bytes : List UInt8
deriving DecidableEq, Repr

namespace BitSource

/-- The number of bits left. -/
def size (source : BitSource) : Nat := source.pending.length + 8 * source.bytes.length

/-- The bits of a byte. -/
def bitsOf (byte : UInt8) : List Bool := (List.range 8).map byte.toNat.testBit

/-- Take a bit. -/
def next? : BitSource → Option (Bool × BitSource)
  | ⟨bit :: pending, bytes⟩ => some (bit, ⟨pending, bytes⟩)
  | ⟨[], byte :: bytes⟩ => some (byte.toNat.testBit 0, ⟨(bitsOf byte).tail, bytes⟩)
  | ⟨[], []⟩ => none

/-- Take a number of `n` bits, the lowest bit first. -/
def number? : Nat → BitSource → Option (Nat × BitSource)
  | 0, source => some (0, source)
  | n + 1, source =>
    match source.next? with
    | none => none
    | some (bit, source) =>
      (number? n source).map fun (high, source) => (2 * high + bit.toNat, source)

/-- Go on to the next whole byte. -/
def align (source : BitSource) : BitSource := { source with pending := [] }

/-- Take `n` bytes; the bits left of the byte that was begun are lost. -/
def bytes? (n : Nat) (source : BitSource) : Option (List UInt8 × BitSource) :=
  let taken := source.bytes.take n
  if taken.length = n then some (taken, ⟨[], source.bytes.drop n⟩) else none

example : (BitSource.mk [] [0b10110]).number? 3 =
    some (6, ⟨[false, true, false, false, false], []⟩) := by decide

end BitSource
end CircuitRom
