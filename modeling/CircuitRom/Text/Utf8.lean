/-!
# Bytes that are no text

Text is kept in bytes as UTF-8: the first byte of a character says how many bytes follow, and
within which bounds the second one lies.
-/

namespace CircuitRom
namespace Utf8

/-- Where bytes stop being text. -/
structure Fault where
  /-- The place of the first byte of the character. -/
  place : Nat
  /-- How many bytes could still have started a character, unless the bytes just end. -/
  length : Option Nat
deriving DecidableEq, Repr

/-- The wording of a fault. -/
def Fault.message (fault : Fault) : String :=
  match fault.length with
  | some n => s!"invalid utf-8 sequence of {n} bytes from index {fault.place}"
  | none => s!"incomplete utf-8 byte sequence from index {fault.place}"

/-- What a character still lacks. -/
structure Owed where
  /-- The number of bytes. -/
  count : Nat := 0
  /-- The least value of the next byte. -/
  low : Nat := 0x80
  /-- The greatest value of the next byte. -/
  high : Nat := 0xBF
deriving DecidableEq, Repr

/-- What a character lacks after its first byte, if a character starts with that byte. -/
def owedAfter? (byte : Nat) : Option Owed :=
  if byte ≤ 0x7F then some {}
  else if 0xC2 ≤ byte ∧ byte ≤ 0xDF then some { count := 1 }
  else if byte = 0xE0 then some { count := 2, low := 0xA0 }
  else if byte = 0xED then some { count := 2, high := 0x9F }
  else if 0xE1 ≤ byte ∧ byte ≤ 0xEF then some { count := 2 }
  else if byte = 0xF0 then some { count := 3, low := 0x90 }
  else if 0xF1 ≤ byte ∧ byte ≤ 0xF3 then some { count := 3 }
  else if byte = 0xF4 then some { count := 3, high := 0x8F }
  else none

/-- The fault of bytes from the given place on, in a character that starts at `start`. -/
def faultFrom (place start : Nat) (owed : Owed) : List UInt8 → Fault
  | [] => ⟨start, none⟩
  | byte :: rest =>
    let n := byte.toNat
    if owed.count = 0 then
      match owedAfter? n with
      | none => ⟨place, some 1⟩
      | some owed => faultFrom (place + 1) place owed rest
    else if owed.low ≤ n ∧ n ≤ owed.high then
      faultFrom (place + 1) start { count := owed.count - 1 } rest
    else ⟨start, some (place - start)⟩

/-- The fault of bytes that are no text. -/
def faultOf (bytes : List UInt8) : Fault := faultFrom 0 0 {} bytes

example : faultOf [0x61, 0xFF] = ⟨1, some 1⟩ := by decide
example : faultOf [0x61, 0xE0, 0x80] = ⟨1, some 1⟩ := by decide
example : faultOf [0xF0, 0x90, 0x80, 0x61] = ⟨0, some 3⟩ := by decide
example : faultOf [0x61, 0x62, 0xE2, 0x82] = ⟨2, none⟩ := by decide

end Utf8
end CircuitRom
