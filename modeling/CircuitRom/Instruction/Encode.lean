import CircuitRom.Diagnostic
import CircuitRom.Encoding
import CircuitRom.Instruction
import CircuitRom.Literal

/-!
# From instructions to signals

The operand tokens of an instruction are grouped into arguments, each a single token or a bracket.
The opcode table gives the form of each argument, and the instruction's signals are the control
signals of its opcode followed by those of its arguments.
-/

namespace CircuitRom

/-! ## Arguments -/

/-- An operand as written. -/
inductive Argument
  /-- A token by itself. -/
  | single (token : Token)
  /-- The tokens between brackets, with the bracket that opens them. -/
  | group (bracket : Token) (items : List Token)
deriving DecidableEq, Repr

namespace Argument

/-- Group operand tokens, inside the given bracket if there is one. -/
def extractFrom : Option (Token × List Token) → List Token → Except Diagnostic (List Argument)
  | none, [] => .ok []
  | some (bracket, _), [] => .error (.atToken .bracketUnclosed bracket)
  | none, t :: rest =>
    if !t.isDelimiter then (extractFrom none rest).map (single t :: ·)
    else if t.text = "[" then extractFrom (some (t, [])) rest
    else if t.text = "]" then .error (.atToken .bracketUnopened t)
    else extractFrom none rest
  | some (bracket, items), t :: rest =>
    if !t.isDelimiter then extractFrom (some (bracket, items ++ [t])) rest
    else if t.text = "[" then .error (.atToken .bracketNested t)
    else if t.text = "]" then
      if items.isEmpty then .error (.atToken .bracketEmpty t)
      else (extractFrom none rest).map (group bracket items :: ·)
    else extractFrom (some (bracket, items)) rest

/-- The arguments that operand tokens write, without the commas. -/
def extract (operands : List Token) : Except Diagnostic (List Argument) :=
  extractFrom none operands

end Argument

/-! ## Signals of an argument -/

namespace Token

/-- The value on the wire of a token that names a register. -/
def register (t : Token) : Except Diagnostic Int32 :=
  match Register.ofName? t.text with
  | some r => .ok r.word
  | none => .error (.atToken (.registerUnknown t.text) t)

/-- The value of a token that is a number. -/
def immediate (t : Token) : Except Diagnostic Int32 :=
  match Literal.parse t.text with
  | .ok value => .ok value
  | .error .outOfRange => .error (.atToken (.immediateRange t.text) t)
  | .error .malformed => .error (.atToken (.immediateInvalid t.text) t)

/-- The signals of a token that is a register or a number. -/
def registerOrImmediate (t : Token) (reg imm : Template) : Except Diagnostic Signals :=
  match Register.ofName? t.text with
  | some r => .ok (reg.fill r.word)
  | none =>
    match Literal.parse t.text with
    | .ok value => .ok (imm.fill value)
    | .error .outOfRange => .error (.atToken (.immediateRange t.text) t)
    | .error .malformed => .error (.atToken (.operandInvalid t.text) t)

end Token

namespace OperandForm

/-- The signals of an argument in the place of an operand of this form. -/
def signals : OperandForm → Argument → Except Diagnostic Signals
  | address reg imm, .group bracket items =>
    match items with
    | [] => .error (.atToken .bracketEmpty bracket)
    | [t] => t.registerOrImmediate reg imm
    | [r, i] => do
      let base ← r.register
      let offset ← i.immediate
      return (reg.fill base).merge (imm.fill offset)
    | _ :: _ :: extra :: _ => .error (.atToken .bracketOverfull extra)
  | address _ _, .single t => .error (.atToken .bracketExpected t)
  | register reg, .single t => t.register.map reg.fill
  | immediate imm, .single t => t.immediate.map imm.fill
  | either reg imm, .single t => t.registerOrImmediate reg imm
  | _, .group bracket _ => .error (.atToken .bracketUnexpected bracket)

/-- Add the signals of arguments to those before them. -/
def mergeSignals (signals : Signals) :
    List (Argument × OperandForm) → Except Diagnostic Signals
  | [] => .ok signals
  | (argument, form) :: rest =>
    match form.signals argument with
    | .error e => .error e
    | .ok more => mergeSignals (signals.merge more) rest

end OperandForm

/-! ## Signals of an instruction -/

namespace Instruction

/-- The signals of an instruction. -/
def encode (i : Instruction) : Except Diagnostic Signals :=
  match Opcode.ofName? i.opcode.text with
  | none => .error (.atToken (.opcodeUnknown i.opcode.text) i.opcode)
  | some op => do
    let arguments ← Argument.extract i.operands
    if arguments.length ≠ op.operands.length then
      .error (.atToken (.operandCount op.name op.operands.length arguments.length) i.opcode)
    else
      OperandForm.mergeSignals op.encoding.control (arguments.zip op.encoding.operands)

/-- The signals of the instructions of a program. -/
def encodeAll (instructions : List Instruction) : Except Diagnostic (List Signals) :=
  instructions.mapM encode

end Instruction
end CircuitRom
