import CircuitRom.Definition
import CircuitRom.Instruction.Encode
import CircuitRom.Label.Resolution
import CircuitRom.Macro.Expansion
import CircuitRom.Token.Lexer

/-!
# Assembly

A source text becomes tokens, its macros are expanded, its definitions applied, its labels
resolved, and its instructions encoded: one dictionary of signals for each instruction.
-/

namespace CircuitRom

/-- Choices for the assembly of a program. -/
structure Options where
  /-- Add a halt after the last instruction. -/
  appendHalt : Bool := false
deriving DecidableEq, Repr

/-- A report on a finished stage. -/
inductive Progress
  | tokenized (lines : Nat)
  | expanded (lines : Nat)
  | substituted (lines : Nat)
  | resolved (labels instructions : Nat)
deriving DecidableEq, Repr

/-- The outcome of a run of stages, with the reports of those that succeeded. -/
structure Staged (α : Type) where
  /-- The reports in order. -/
  reports : List Progress
  /-- The result, or the fault that stopped the run. -/
  outcome : Except Diagnostic α

/-- Run a stage, report it if it succeeds, and go on with its result. -/
def Staged.stage {α β : Type} (step : Except Diagnostic α) (report : α → Progress)
    (next : α → Staged β) : Staged β :=
  match step with
  | .error e => ⟨[], .error e⟩
  | .ok a =>
    let rest := next a
    ⟨report a :: rest.reports, rest.outcome⟩

/-- Add the halt that the options ask for. -/
def Program.finish (program : Program) (options : Options) : Program :=
  if options.appendHalt then
    { program with instructions := program.instructions ++ [Instruction.halt] }
  else program

/-- All stages up to the resolution of labels, with their reports. -/
def preprocessStaged (code : String) (options : Options) : Staged Program :=
  .stage (tokenize code) (fun lines => .tokenized lines.length) fun lines =>
  .stage (expandMacros lines) (fun lines => .expanded lines.length) fun lines =>
  .stage (Definition.substitute lines) (fun lines => .substituted lines.length) fun lines =>
  .stage ((Program.resolve lines).map (·.finish options))
    (fun program => .resolved program.labels.size program.instructions.length) fun program =>
  ⟨[], .ok program⟩

/-- The instructions and labels of a source text. -/
def preprocess (code : String) (options : Options) : Except Diagnostic Program :=
  (preprocessStaged code options).outcome

/-- An assembled program. -/
structure Assembly where
  /-- The instructions by address. -/
  instructions : List Instruction
  /-- The signals of each instruction. -/
  signals : List Signals
  /-- The labels that no operand refers to. -/
  warning : Option UnusedLabels
deriving DecidableEq

/-- Assemble a source text. -/
def assemble (code : String) (options : Options) : Except Diagnostic Assembly := do
  let program ← preprocess code options
  let signals ← Instruction.encodeAll program.instructions
  return ⟨program.instructions, signals, program.labels.unused⟩

/-! ## Stages seen through their results -/

@[simp] theorem Staged.outcome_stage {α β : Type} (step : Except Diagnostic α)
    (report : α → Progress) (next : α → Staged β) :
    (Staged.stage step report next).outcome = step >>= fun a => (next a).outcome := by
  cases step <;> rfl

/-- Preprocessing is the stages one after the other. -/
theorem preprocess_eq (code : String) (options : Options) :
    preprocess code options = (do
      let lines ← tokenize code
      let lines ← expandMacros lines
      let lines ← Definition.substitute lines
      let program ← Program.resolve lines
      return program.finish options) := by
  simp only [preprocess, preprocessStaged, Staged.outcome_stage]
  congr 1; funext lines
  congr 1; funext lines
  congr 1; funext lines
  cases Program.resolve lines <;> rfl

end CircuitRom
