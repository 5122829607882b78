import CircuitRom.Token

/-!
# Instructions

The address of an instruction is its position in the program.  An instruction is shown with its
opcode padded to five characters and its operands set apart by spaces, tight inside brackets and
before commas, as in `STORE R0, [R3, 5]`.
-/

namespace CircuitRom

/-- An instruction of the machine. -/
structure Instruction where
  /-- The word that names the operation. -/
  opcode : Token
  /-- The tokens after it. -/
  operands : List Token
deriving DecidableEq, Repr

namespace Instruction

/-- The halt that may be added at the end of a program. -/
def halt : Instruction := ⟨⟨"HLTG", .opcode, Site.nowhere, none⟩, []⟩

/-- Operand tokens as they are shown after a token with the given text. -/
def operandText (previous : Option String) : List Token → String
  | [] => ""
  | t :: rest =>
    let tight := t.text = "," ∨ t.text = "]" ∨ previous = some "["
    (if tight then "" else " ") ++ t.text ++ operandText (some t.text) rest

/-- An instruction as it is shown in a listing. -/
def text (i : Instruction) : String :=
  Text.padRight 5 i.opcode.text ++ operandText none i.operands

/-- The listing of a program, one instruction a line. -/
def listing (instructions : List Instruction) : String :=
  String.join (instructions.map fun i => i.text ++ "\n")

end Instruction
end CircuitRom
