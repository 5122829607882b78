import CircuitRom.Instruction
import CircuitRom.Signal
import CircuitRom.Text.Style

/-!
# Dump of an assembled program

A table of the instructions with their addresses, source lines and signals.
-/

namespace CircuitRom
namespace Dump

open Text (styled)

/-- The line above and below the table. -/
def rule : String :=
  String.ofList (List.replicate 12 '-' ++ '+' :: List.replicate 54 '-') ++ "\n"

/-- The name of a signal without the word that most of them share. -/
def shortName (name : String) : String :=
  let family := "signal-".toList
  if family.isPrefixOf name.toList then String.ofList (name.toList.drop family.length) else name

/-- A signal with its value. -/
def entry (signal : String × Int32) : String :=
  styled [.cyan] (shortName signal.1) ++ "=" ++ toString signal.2.toInt

/-- The source line of an instruction. -/
def lineNumber (site : Site) : String :=
  if site.isNowhere then Text.spaces 4 else Text.padLeft 4 (toString site.line)

/-- One instruction with its address, source line and signals. -/
def row (address : Nat) (i : Instruction) (signals : Signals) : String :=
  "[" ++ styled [.yellow] (Text.zeroPadded 4 address) ++ "] " ++ lineNumber i.opcode.site ++
    " | " ++ styled [.bold] (Text.padRight 24 i.text) ++ " " ++
    " ".intercalate (signals.entries.map entry) ++ "\n"

/-- The table of a program. -/
def table (instructions : List Instruction) (signals : List Signals) : String :=
  rule ++
    String.join ((instructions.zip signals).zipIdx.map fun item =>
      row item.2 item.1.1 item.1.2) ++
    rule

end Dump
end CircuitRom
