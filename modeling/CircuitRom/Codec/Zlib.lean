import CircuitRom.Codec.Adler
import CircuitRom.Codec.Deflate

/-!
# Zlib streams

A deflate stream between a header of two bytes and a checksum of four.
-/

namespace CircuitRom
namespace Zlib

/-- Whether two bytes are a header: of the only known method, with a window of at most 32 KiB,
without a dictionary, and divisible by 31 as a number. -/
def isHeader (method flags : Nat) : Bool :=
  method % 16 == 8 && decide (method / 16 ≤ 7) && flags / 32 % 2 == 0 &&
    (256 * method + flags) % 31 == 0

/-- The bytes of a stream.  What follows the checksum is passed over. -/
def decompress? : List UInt8 → Option (List UInt8)
  | method :: flags :: rest =>
    if !isHeader method.toNat flags.toNat then none
    else
      match Deflate.inflate? rest with
      | none => none
      | some (bytes, rest) => if rest.take 4 = Adler.checksum bytes then some bytes else none
  | _ => none

/-- A stream for the given bytes. -/
def compress (bytes : List UInt8) : List UInt8 :=
  0x78 :: 0x01 :: (Deflate.deflate bytes ++ Adler.checksum bytes)

example : decompress? (compress [1, 2, 3]) = some [1, 2, 3] := by decide
example : decompress? [0x78, 0x01, 0x01, 0x02, 0x00, 0xfd, 0xff, 0x7b, 0x7d, 0x01, 0x75, 0x00, 0xf9] =
    some [0x7b, 0x7d] := by decide
example : isHeader 0x78 0x9c ∧ isHeader 0x18 0x95 ∧ !isHeader 0x78 0x9d ∧ !isHeader 0x88 0x1c := by
  decide

end Zlib
end CircuitRom
