import CircuitRom.Blueprint

/-!
# Settings

What a run of the assembler can be told, from a settings file and from the command line.
-/

namespace CircuitRom

/-- Settings, each of which may be left open. -/
structure Settings where
  /-- The source file. -/
  input : Option String := none
  /-- The file for the blueprint string. -/
  output : Option String := none
  /-- The file for the preprocessed listing. -/
  preprocessed : Option String := none
  /-- The name of the blueprint. -/
  label : Option String := none
  /-- Whether to halt after the last instruction. -/
  appendHalt : Option Bool := none
  /-- Whether to show the instructions with their signals. -/
  dump : Option Bool := none
deriving DecidableEq, Repr

namespace Settings

/-- The source file if none is given. -/
def defaultInput : String := "input.fal"

/-- The file for the blueprint string if none is given. -/
def defaultOutput : String := "output.txt"

/-- Put settings on top of others: what they leave open stays as it was. -/
def overlay (base top : Settings) : Settings where
  input := top.input.or base.input
  output := top.output.or base.output
  preprocessed := top.preprocessed.or base.preprocessed
  label := top.label.or base.label
  appendHalt := top.appendHalt.or base.appendHalt
  dump := top.dump.or base.dump

/-- The source file. -/
def inputFile (s : Settings) : String := s.input.getD defaultInput

/-- The file for the blueprint string. -/
def outputFile (s : Settings) : String := s.output.getD defaultOutput

/-- The name of the blueprint. -/
def blueprintLabel (s : Settings) : String := s.label.getD Blueprint.defaultLabel

/-- Whether to halt after the last instruction. -/
def haltsAtEnd (s : Settings) : Bool := s.appendHalt.getD false

/-- Whether to show the instructions with their signals. -/
def dumps (s : Settings) : Bool := s.dump.getD false

end Settings
end CircuitRom
