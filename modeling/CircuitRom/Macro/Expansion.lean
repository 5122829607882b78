import CircuitRom.Macro.Dependency

/-!
# Expansion of macro calls

A line calls a macro when its first token after the labels is the macro's name.  The call is
replaced by the macro's body, in which `$0`, `$1`, … stand for the arguments.  Bodies may call
other macros, so expansion goes in rounds: each round expands every call of the program once, from
the last line to the first, until a round finds none.
-/

namespace CircuitRom

/-- A line that calls a macro. -/
structure Call where
  /-- The macro. -/
  target : Macro
  /-- The labels in front of the call, with their colons. -/
  labels : Line
  /-- The token that names the macro. -/
  name : Token
  /-- The arguments: all tokens after the name but the delimiters. -/
  arguments : List Token
deriving DecidableEq, Repr

namespace Call

/-- A body token as it stands after the call.  A placeholder takes the text and the place of its
argument; any other token keeps its text and is placed at the call. -/
def instantiate (call : Call) (token : Token) : Except Diagnostic Token :=
  match token.text.toList with
  | '$' :: digits =>
    match Text.count? (String.ofList digits) with
    | none =>
      .error ((Diagnostic.atToken (.placeholderInvalid token.text) token).withNote
        "invoked here" call.name.site)
    | some n =>
      match call.arguments[n]? with
      | none =>
        .error ((Diagnostic.atToken
          (.placeholderRange token.text call.target.name call.target.parameters) token).withNote
            "invoked here" call.name.site)
      | some argument => .ok ⟨argument.text, token.kind, argument.site, some token.site⟩
  | _ => .ok ⟨token.text, token.kind, call.name.site, some token.site⟩

/-- The lines that replace a call.  Labels in front of it get a line of their own. -/
def expand (call : Call) : Except Diagnostic (List Line) :=
  if call.arguments.length ≠ call.target.parameters then
    .error (.atToken
      (.argumentCount call.target.name call.target.parameters call.arguments.length) call.name)
  else
    (call.target.body.mapM fun (line : Line) => line.mapM call.instantiate).map fun body =>
      if call.labels.isEmpty then body else call.labels :: body

end Call

namespace MacroTable

/-- The call that a line makes. -/
def call? (table : MacroTable) (line : Line) : Option Call :=
  match line.statement with
  | [] => none
  | name :: rest =>
    if name.isDelimiter then none
    else
      (table.find? name.text).map fun m =>
        ⟨m, line.labelPart, name, rest.filter (!·.isDelimiter)⟩

/-- One round of expansion: whether there was a call, and the new lines.  A fault in a later line
comes before one in an earlier line. -/
def round (table : MacroTable) : List Line → Except Diagnostic (Bool × List Line)
  | [] => .ok (false, [])
  | line :: rest =>
    match table.round rest with
    | .error e => .error e
    | .ok (changed, rest) =>
      match table.call? line with
      | none => .ok (changed, line :: rest)
      | some call =>
        match call.expand with
        | .error e => .error e
        | .ok lines => .ok (true, lines ++ rest)

/-- Rounds of expansion until one finds no call.  `limit` is the number of rounds allowed from
the start, of which those given are left. -/
def settle (table : MacroTable) (limit : Nat) : Nat → List Line → Except Diagnostic (List Line)
  | 0, lines =>
    match lines.findSome? table.call? with
    | some call => .error (.atToken (.expansionUnsettled limit) call.name)
    | none => .ok lines
  | left + 1, lines =>
    match table.round lines with
    | .error e => .error e
    | .ok (changed, lines) => if changed then table.settle limit left lines else .ok lines

/-- Expand all calls in at most the given number of rounds. -/
def expandWithin (table : MacroTable) (rounds : Nat) (lines : List Line) :
    Except Diagnostic (List Line) :=
  table.settle rounds rounds lines

end MacroTable

/-- The number of rounds allowed for a program. -/
def roundLimit : Nat := 1000000

/-- The lines of a program with its macros expanded and their declarations removed. -/
def expandMacros (lines : List Line) : Except Diagnostic (List Line) := do
  let table ← MacroTable.collect lines
  table.check
  table.expandWithin roundLimit (table.strip lines)

end CircuitRom
