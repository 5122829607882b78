import CircuitRom.Diagnostic
import CircuitRom.Dictionary
import CircuitRom.Text.Digits

/-!
# Macros

A macro is declared by the lines from `#macro name count` to `#endm`.  Its body is the lines in
between.  A body may have numeric labels, and no symbolic ones.

`collect` finds the declarations of a program, and `strip` removes their lines.
-/

namespace CircuitRom

/-- A macro declaration. -/
structure Macro where
  /-- The name by which it is called. -/
  name : String
  /-- The number of arguments of a call. -/
  parameters : Nat
  /-- The token that starts the declaration. -/
  head : Token
  /-- The position of the first line of the declaration. -/
  first : Nat
  /-- The position of its last line. -/
  last : Nat
  /-- The lines in between. -/
  body : List Line
deriving DecidableEq, Repr

/-- The macros of a program by name, in the order of their declaration. -/
structure MacroTable extends Dictionary Macro where
  /-- A macro is listed under its own name. -/
  named : ∀ entry ∈ entries, entry.1 = entry.2.name

namespace MacroTable

/-- The table without macros. -/
def empty : MacroTable := ⟨Dictionary.empty, by simp⟩

/-- The table with one more macro, or with another one of its name. -/
def declare (table : MacroTable) (m : Macro) : MacroTable where
  toDictionary := table.insert m.name m
  named := Dictionary.forall_mem_put rfl table.named

end MacroTable

/-! ## Finding declarations -/

/-- The state of the search: the finished declarations, and the one whose end is still to come. -/
structure MacroSearch where
  /-- The finished declarations. -/
  table : MacroTable := MacroTable.empty
  /-- The declaration that is being read. -/
  pending : Option Macro := none

namespace MacroSearch

/-- Read the tokens after `#macro`. -/
def start (s : MacroSearch) (index : Nat) (head : Token) (rest : List Token) :
    Except Diagnostic MacroSearch :=
  if s.pending.isSome then .error (.atToken .macroNested head)
  else
    match rest with
    | [name, count] =>
      if s.table.contains name.text then .error (.atToken (.macroRepeated name.text) name)
      else
        match Text.count? count.text with
        | none => .error (.atToken (.parameterCount count.text) count)
        | some parameters =>
          .ok { s with pending := some ⟨name.text, parameters, head, index, index, []⟩ }
    | _ => .error (.atToken .macroHeader head)

/-- Read an `#endm`. -/
def finish (s : MacroSearch) (index : Nat) (head : Token) : Except Diagnostic MacroSearch :=
  match s.pending with
  | none => .error (.atToken .macroUnopened head)
  | some m => .ok ⟨s.table.declare { m with last := index }, none⟩

/-- Read a line without a directive: inside a declaration it belongs to the body. -/
def keep (s : MacroSearch) (line : Line) : Except Diagnostic MacroSearch :=
  match s.pending with
  | none => .ok s
  | some m =>
    match line.find? (·.kind == .symbolic) with
    | some label => .error (.atToken (.symbolInMacro label.text) label)
    | none => .ok { s with pending := some { m with body := m.body ++ [line] } }

/-- Read the line at the given position. -/
def step (s : MacroSearch) (index : Nat) (line : Line) : Except Diagnostic MacroSearch :=
  match line with
  | [] => .ok s
  | head :: rest =>
    if head.isDirective "#macro" then s.start index head rest
    else if head.isDirective "#endm" then s.finish index head
    else s.keep line

/-- Read the lines from the given position on. -/
def run (s : MacroSearch) (index : Nat) : List Line → Except Diagnostic MacroSearch
  | [] => .ok s
  | line :: rest =>
    match s.step index line with
    | .error e => .error e
    | .ok s => s.run (index + 1) rest

end MacroSearch

namespace MacroTable

/-- The declarations of a program. -/
def collect (lines : List Line) : Except Diagnostic MacroTable :=
  match (MacroSearch.run {} 0 lines) with
  | .error e => .error e
  | .ok s =>
    match s.pending with
    | some m => .error (.atToken (.macroUnclosed m.name) m.head)
    | none => .ok s.table

/-! ## Removing declarations -/

/-- The lines without those at the positions `first` to `last`. -/
def removeBlock (first last : Nat) (lines : List Line) : List Line :=
  lines.take first ++ lines.drop (last + 1)

/-- The lines without the declarations.  The last one goes first, so that the positions of the
others stay valid. -/
def strip (table : MacroTable) (lines : List Line) : List Line :=
  table.values.foldr (fun m lines => removeBlock m.first m.last lines) lines

end MacroTable
end CircuitRom
