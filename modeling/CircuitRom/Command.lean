import CircuitRom.Assembly
import CircuitRom.Assembly.Dump
import CircuitRom.Blueprint.Text
import CircuitRom.Command.Action
import CircuitRom.Command.Arguments
import CircuitRom.Diagnostic.Excerpt
import CircuitRom.Settings.File

/-!
# The command

`Command.execute` is what the assembler does on a command line: it assembles a source file into a
blueprint string, or shows the table of opcodes, or shows the document of a blueprint string.
-/

namespace CircuitRom
namespace Command

open Text (styled)

/-! ## Faults -/

/-- Why a run fails. -/
inductive Fault where
  /-- A file cannot be read. -/
  | unreadable (path : String) (fault : FileFault)
  /-- A file cannot be written. -/
  | unwritable (path : String) (fault : FileFault)
  /-- The settings file cannot be used. -/
  | settings (path : String) (fault : Settings.Fault)
  /-- The source file has a fault. -/
  | source (path : String) (diagnostic : Diagnostic)
  /-- A blueprint cannot be built or read. -/
  | blueprint (fault : BlueprintFault)

/-- What is printed for a fault. -/
def Fault.render : Fault → String
  | unreadable path fault => plain s!"Failed to open file: {path}: {fault.message}"
  | unwritable path fault => plain s!"Failed to write file: {path}: {fault.message}"
  | settings path fault => plain s!"Invalid config file: {path}: {fault.message}"
  | source path diagnostic => diagnostic.render path
  | blueprint fault => plain fault.report
where
  /-- A message that is not about a place in the source. -/
  plain (text : String) : String := (Message.error none text).render "" none

/-! ## Steps -/

/-- An action that may fail. -/
abbrev Step := ExceptT Fault Action

/-- Print a text. -/
def say (text : String) : Step Unit := ExceptT.lift (.print text (.done ()))

/-- Read a file. -/
def readFile (path : String) : Step String :=
  ExceptT.mk (.read path fun text => .done (text.mapError (.unreadable path)))

/-- Write a file. -/
def writeFile (path text : String) : Step Unit :=
  ExceptT.mk (.write path text fun written => .done (written.mapError (.unwritable path)))

/-- Go on with a result, or fail. -/
def require {ε α : Type} (fault : ε → Fault) (result : Except ε α) : Step α :=
  ExceptT.mk (.done (result.mapError fault))

/-- Announce a step. -/
def announce (number : Nat) (title : String) : Step Unit :=
  say (styled [.green, .bold] s!"{number}." ++ " " ++ title ++ "\n")

/-- Print a detail of a step. -/
def detail (text : String) : Step Unit := say ("   " ++ styled [.blue] "-" ++ " " ++ text ++ "\n")

/-- Report a finished stage. -/
def report : Progress → Step Unit
  | .tokenized lines => do announce 2 "Tokenize"; detail s!"{lines} lines"
  | .expanded lines => do announce 3 "Expand Macros"; detail s!"{lines} lines"
  | .substituted lines => do announce 4 "Apply Definitions"; detail s!"{lines} lines"
  | .resolved labels instructions => do
    announce 5 "Resolve Labels"
    detail s!"{labels} labels, {instructions} instructions"

/-! ## Runs -/

/-- What the command line sets. -/
def overrides (a : Arguments) : Settings where
  input := a.input
  output := a.output
  preprocessed := a.preprocessed.join
  label := a.label
  appendHalt := if a.appendHalt then some true else none
  dump := if a.dump then some true else none

/-- The settings of a run: those of the settings file under those of the command line. -/
def loadSettings (a : Arguments) : Step Settings :=
  match a.config with
  | none => return overrides a
  | some path => do
    let text ← readFile path
    let settings ← require (Fault.settings path) (Settings.parse text)
    return settings.overlay (overrides a)

/-- Where the preprocessed listing goes, if it is asked for. -/
def listingFile (a : Arguments) (settings : Settings) : Option String :=
  match a.preprocessed, settings.preprocessed with
  | some none, none => some (Path.listing settings.inputFile)
  | _, path => path

/-- Read the source file and take it through all stages up to the resolution of labels. -/
def readProgram (settings : Settings) : Step Program := do
  let input := settings.inputFile
  announce 1 "Read File"
  say s!"  < {input}\n"
  let code ← readFile input
  let staged := preprocessStaged code ⟨settings.haltsAtEnd⟩
  staged.reports.forM report
  let program ← require (Fault.source input) staged.outcome
  if let some warning := program.labels.unused then
    say ((Message.warn warning.message).render input none)
  return program

/-- Write the listing of a program to a file. -/
def writeListing (path : String) (program : Program) : Step Unit := do
  say s!"  > {path}\n"
  writeFile path (Instruction.listing program.instructions)

/-- Encode a program and write its blueprint string. -/
def writeBlueprint (settings : Settings) (program : Program) : Step Unit := do
  announce 6 "Encode Instructions"
  let encoded := Instruction.encodeAll program.instructions
  let signals ← require (Fault.source settings.inputFile) encoded
  announce 7 "Generate Blueprint"
  let blueprint ← require Fault.blueprint (Blueprint.rom settings.blueprintLabel signals)
  detail s!"{blueprint.label}: {blueprint.entities.size} entities"
  say s!"  > {settings.outputFile}\n"
  writeFile settings.outputFile (BlueprintText.encode blueprint.json ++ "\n")
  if settings.dumps then say (Dump.table program.instructions signals)

/-- Assemble a source file into a blueprint string.  The listing, if it is asked for, is written as
soon as the program is known. -/
def compile (a : Arguments) : Step Unit := do
  let settings ← loadSettings a
  say (styled [.bold] "PROM Assembler" ++ "\n")
  let program ← readProgram settings
  (listingFile a settings).forM fun path => writeListing path program
  writeBlueprint settings program

/-- Show the document of a blueprint string. -/
def showImport (path : String) : Step Unit := do
  let text ← readFile path
  let (version, json) ← require Fault.blueprint (BlueprintText.decode text)
  if version ≠ BlueprintText.version then
    say ((Message.warn s!"Unknown blueprint version `{version}`").render path none)
  say (json ++ "\n")

/-- Do what the arguments ask for. -/
def run (a : Arguments) : Step Unit :=
  if a.opcodes then say (Opcode.tableText ++ "\n")
  else
    match a.importFile with
    | some path => showImport path
    | none => compile a

/-! ## Help -/

/-- The name of the command and its version. -/
def versionText : String := "fcasm 0.1.0\n"

/-- How the command is used. -/
def helpText : String :=
  versionText ++ "  Assembler for the PROM computer\n\nUsage:\n    fcasm [OPTIONS] [INPUT]\n\n" ++
  "Arguments:\n  [INPUT]  Input file [default: input.fal]\n\nOptions:\n" ++
  "  -o, --output <OUTPUT>        Output file for the blueprint string [default: output.txt]\n" ++
  "  -p, --preprocessed[=<PATH>]  Write the preprocessed listing, to PATH if given as `-p=PATH`\n" ++
  "  -c, --config <CONFIG>        YAML file with default settings\n" ++
  "      --append-halt            Append HLTG after the last instruction\n" ++
  "      --label <LABEL>          Blueprint label [default: \"Program - PROM\"]\n" ++
  "  -d, --dump                   Dump instructions with their signals\n" ++
  "      --opcodes                Print the opcode table and exit\n" ++
  "      --import <FILE>          Decode a blueprint string file, print its JSON and exit\n" ++
  "  -h, --help                   Print help\n" ++
  "  -V, --version                Print version\n"

/-- Report the fault of a failed run, and end with an exit code. -/
def conclude : Except Fault Unit → Action Nat
  | .ok _ => .done 0
  | .error fault => .print fault.render (.done 1)

/-- Carry out a command line, and end with an exit code: zero for success, one for a failed run,
two for arguments that make no sense. -/
def execute (arguments : List String) : Action Nat :=
  match Arguments.parse arguments with
  | .error .refused => .done 2
  | .error .help => .print helpText (.done 0)
  | .error .version => .print versionText (.done 0)
  | .ok a => (run a).run >>= conclude

end Command
end CircuitRom
