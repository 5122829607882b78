import CircuitRom.Instruction
import CircuitRom.Label

/-!
# From lines to instructions

`layOut` takes the labels off the lines and binds each to the address of the next instruction.
`resolve` then replaces every reference to a label by the label's address in decimal.
-/

namespace CircuitRom

/-- A program whose labels are known. -/
structure Program where
  /-- The instructions by address. -/
  instructions : List Instruction
  /-- The labels. -/
  labels : Labels
deriving DecidableEq

namespace Program

/-! ## Addresses -/

/-- Lay out lines, starting at an address with the labels before it. -/
def layOutFrom (labels : Labels) (address : Nat) : List Line → Except Diagnostic Program
  | [] => .ok ⟨[], labels⟩
  | line :: rest =>
    match line.find? (·.kind == .unknown) with
    | some token => .error (.atToken (.wordUnknown token.text) token)
    | none =>
      match labels.defineAll address line.labels with
      | .error e => .error e
      | .ok labels =>
        match line.statement with
        | [] => layOutFrom labels address rest
        | opcode :: operands =>
          (layOutFrom labels (address + 1) rest).map fun program =>
            { program with instructions := ⟨opcode, operands⟩ :: program.instructions }

/-- Lay out the lines of a program. -/
def layOut (lines : List Line) : Except Diagnostic Program := layOutFrom {} 0 lines

/-! ## References -/

/-- Replace the reference that an operand of the instruction at the given address may be. -/
def resolveToken (labels : Labels) (address : Nat) (token : Token) :
    Except Diagnostic (Token × Labels) :=
  if token.kind ≠ .operand then .ok (token, labels)
  else
    match labels.useSymbol token.text with
    | some (target, labels) => .ok ({ token with text := toString target }, labels)
    | none =>
      match numericReference? token.text with
      | none => .ok (token, labels)
      | some (digit, direction) =>
        match labels.useNumeric digit direction address with
        | .error cause => .error (.atToken cause token)
        | .ok (target, labels) => .ok ({ token with text := toString target }, labels)

/-- Replace the references in operands. -/
def resolveTokens (labels : Labels) (address : Nat) :
    List Token → Except Diagnostic (List Token × Labels)
  | [] => .ok ([], labels)
  | token :: rest =>
    match resolveToken labels address token with
    | .error e => .error e
    | .ok (token, labels) =>
      (resolveTokens labels address rest).map fun result => (token :: result.1, result.2)

/-- Replace the references in the instructions from the given address on. -/
def resolveFrom (labels : Labels) (address : Nat) : List Instruction → Except Diagnostic Program
  | [] => .ok ⟨[], labels⟩
  | i :: rest =>
    match resolveTokens labels address i.operands with
    | .error e => .error e
    | .ok (operands, labels) =>
      (resolveFrom labels (address + 1) rest).map fun program =>
        { program with instructions := ⟨i.opcode, operands⟩ :: program.instructions }

/-- The program of source lines, with all references replaced. -/
def resolve (lines : List Line) : Except Diagnostic Program :=
  match layOut lines with
  | .error e => .error e
  | .ok program => resolveFrom program.labels 0 program.instructions

end Program
end CircuitRom
