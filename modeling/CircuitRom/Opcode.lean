import CircuitRom.Text.Letters

/-!
# Opcodes

The mnemonics of the machine, in the order of its opcode table.
-/

namespace CircuitRom

/-- The operations of the machine. -/
inductive Opcode
  | hlt | hltg | hltb | nop
  | store | load | push | pop
  | b | bz | bn
  | cmem | creg | cram
  | alu | mov | add | sub | inc | dec | cmp | tst
  | mul | div | pow | mod | asr | lsl | lsr | rol | ror
  | not | and | or | xor
deriving DecidableEq, Repr

namespace Opcode

/-- The opcodes in table order. -/
def all : List Opcode :=
  [hlt, hltg, hltb, nop, store, load, push, pop, b, bz, bn, cmem, creg, cram, alu, mov, add, sub,
    inc, dec, cmp, tst, mul, div, pow, mod, asr, lsl, lsr, rol, ror, not, and, or, xor]

/-- The mnemonic of an opcode. -/
def name : Opcode → String
  | hlt => "HLT"
  | hltg => "HLTG"
  | hltb => "HLTB"
  | nop => "NOP"
  | store => "STORE"
  | load => "LOAD"
  | push => "PUSH"
  | pop => "POP"
  | b => "B"
  | bz => "BZ"
  | bn => "BN"
  | cmem => "CMEM"
  | creg => "CREG"
  | cram => "CRAM"
  | alu => "ALU"
  | mov => "MOV"
  | add => "ADD"
  | sub => "SUB"
  | inc => "INC"
  | dec => "DEC"
  | cmp => "CMP"
  | tst => "TST"
  | mul => "MUL"
  | div => "DIV"
  | pow => "POW"
  | mod => "MOD"
  | asr => "ASR"
  | lsl => "LSL"
  | lsr => "LSR"
  | rol => "ROL"
  | ror => "ROR"
  | not => "NOT"
  | and => "AND"
  | or => "OR"
  | xor => "XOR"

/-- The opcode with the given mnemonic, in letters of either case. -/
def ofName? (text : String) : Option Opcode :=
  all.find? fun op => Text.sameLetters op.name text

theorem mem_all (op : Opcode) : op ∈ all := by cases op <;> decide

end Opcode
end CircuitRom
