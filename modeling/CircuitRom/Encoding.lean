import CircuitRom.Opcode
import CircuitRom.Register
import CircuitRom.Signal

/-!
# The opcode table

`Opcode.encoding` gives for each opcode the control signals that it always sets and the forms of
its operands, each with the template that turns an operand's value into signals.  The signals of
an opcode's operands differ from one another and from its control signals.
-/

namespace CircuitRom

/-- What one operand of an opcode may be, and the signals it sets. -/
inductive OperandForm
  /-- A register. -/
  | register (reg : Template)
  /-- A number. -/
  | immediate (imm : Template)
  /-- A register or a number, such as a branch target. -/
  | either (reg imm : Template)
  /-- A bracket with a register, a number, or both. -/
  | address (reg imm : Template)
deriving DecidableEq, Repr

namespace OperandForm

/-- How an operand form is shown in the opcode table. -/
def symbol : OperandForm → String
  | register _ => "R"
  | immediate _ => "I"
  | either _ _ => "R/I"
  | address _ _ => "[R/I/R,I]"

/-- All signal names an operand of this form may set. -/
def keys : OperandForm → List String
  | register t | immediate t => t.keys
  | either reg imm | address reg imm => reg.keys ++ imm.keys

/-- The destination register. -/
def destination : OperandForm := .register [("signal-U", .filled)]

/-- The first source of the arithmetic unit. -/
def sourceA : OperandForm :=
  .either [("signal-K", .fixed 1), ("signal-0", .filled)] [("signal-A", .filled)]

/-- The second source of the arithmetic unit. -/
def sourceB : OperandForm :=
  .either [("signal-L", .fixed 1), ("signal-1", .filled)] [("signal-B", .filled)]

/-- A memory address: a base register, an offset, or both. -/
def memory : OperandForm :=
  .address [("signal-K", .fixed 1), ("signal-0", .filled)] [("signal-A", .filled)]

/-- A number sent on one signal. -/
def number (name : String) : OperandForm := .immediate [(name, .filled)]

/-- A register that is both source and destination. -/
def inPlace : OperandForm :=
  .register [("signal-U", .filled), ("signal-K", .fixed 1), ("signal-0", .filled)]

end OperandForm

/-- How an opcode becomes signals. -/
structure Encoding where
  /-- The signals that the opcode always sets. -/
  control : Signals
  /-- The forms of its operands, in order. -/
  operands : List OperandForm
deriving DecidableEq

namespace Opcode

open OperandForm

/-- The control signals of an arithmetic function. -/
def arithmetic (function : Int32) : List (String × Int32) :=
  [("copper-plate", 9), ("signal-red", 1), ("signal-F", function), ("signal-2", 1),
    ("signal-3", 1)]

/-- The control signals that add, or subtract, the second source. -/
def addition (sign : Int32) : List (String × Int32) :=
  [("copper-plate", 9), ("signal-red", 1), ("signal-2", 1), ("signal-3", sign)]

/-- The signals that an opcode always sets. -/
def control : Opcode → List (String × Int32)
  | hlt => []
  | hltg => [("copper-plate", 6), ("signal-cyan", 1), ("signal-A", 1)]
  | hltb => [("copper-plate", 6), ("signal-cyan", 1), ("signal-A", 2)]
  | nop => [("copper-plate", 1)]
  | store => [("copper-plate", 2)]
  | load => [("copper-plate", 4)]
  | push =>
    [("copper-plate", 13), ("signal-K", 1), ("signal-0", Register.stackPointer.word),
      ("signal-A", 0), ("signal-O", -1), ("signal-2", 1), ("signal-red", 1),
      ("signal-U", Register.stackPointer.word)]
  | pop =>
    [("copper-plate", 16), ("signal-K", 1), ("signal-0", Register.stackPointer.word),
      ("signal-A", 1), ("signal-2", 1), ("signal-red", 1),
      ("signal-V", Register.stackPointer.word)]
  | b => [("copper-plate", 7)]
  | bz => [("copper-plate", 7), ("signal-C", 1)]
  | bn => [("copper-plate", 7), ("signal-C", 2)]
  | cmem => [("copper-plate", 12), ("signal-grey", 1), ("signal-black", 1)]
  | creg => [("copper-plate", 12), ("signal-grey", 1)]
  | cram => [("copper-plate", 12), ("signal-black", 1)]
  | alu => [("copper-plate", 9)]
  | mov | add => addition 1
  | sub => addition (-1)
  | inc => addition 1 ++ [("signal-B", 1)]
  | dec => addition 1 ++ [("signal-B", -1)]
  | cmp => [("copper-plate", 9), ("signal-2", 1), ("signal-3", -1)]
  | tst => [("copper-plate", 9), ("signal-2", 1)]
  | mul => arithmetic 1
  | div => arithmetic 2
  | pow => arithmetic 3
  | mod => arithmetic 4
  | asr => arithmetic 5
  | lsl => arithmetic 6
  | lsr => arithmetic 7
  | rol => arithmetic 8
  | ror => arithmetic 9
  | not => arithmetic 10
  | and => arithmetic 11
  | or => arithmetic 12
  | xor => arithmetic 13

/-- The operands of an opcode. -/
def operands : Opcode → List OperandForm
  | hlt | hltg | hltb | nop | cmem | creg | cram => []
  | store => [sourceB, memory]
  | load => [destination, memory]
  | push => [sourceB]
  | pop => [destination]
  | b | bz | bn | tst => [sourceA]
  | alu =>
    [destination, sourceA, sourceB, number "signal-O", number "signal-2", number "signal-3",
      number "signal-F", number "signal-red"]
  | inc | dec => [inPlace]
  | cmp => [sourceA, sourceB]
  | mov | lsr | rol | ror | not => [destination, sourceA]
  | add | sub | mul | div | pow | mod | asr | lsl | and | or | xor =>
    [destination, sourceA, sourceB]

/-- The row of an opcode in the table. -/
def encoding (op : Opcode) : Encoding := ⟨Dictionary.ofList op.control, op.operands⟩

/-- One row of the table as it is shown, such as `MOV R, R/I`. -/
def usage (op : Opcode) : String :=
  if op.operands.isEmpty then op.name
  else op.name ++ " " ++ ", ".intercalate (op.operands.map OperandForm.symbol)

/-- The table as it is shown, one row a line. -/
def tableText : String := "\n".intercalate (all.map usage)

end Opcode
end CircuitRom
