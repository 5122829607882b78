import CircuitRom.Diagnostic
import CircuitRom.Dictionary

/-!
# Definitions

A line `#def key value` replaces the token `key` by `value` on all later lines.  It is itself
subject to the definitions before it: after `#def n 1`, the line `#def n 2` reads `#def 1 2`.  A
replacement is not replaced again.
-/

namespace CircuitRom
namespace Definition

/-- The token under the definitions so far. -/
def rename (defs : Dictionary String) (token : Token) : Token :=
  { token with text := (defs.find? token.text).getD token.text }

/-- The fault of a definition with the given tokens after its head: at the first delimiter, if
there is one. -/
def fault (head : Token) (rest : List Token) : Diagnostic :=
  .atToken .definitionMalformed ((rest.find? (·.isDelimiter)).getD head)

/-- Apply definitions, starting with those given. -/
def substituteFrom (defs : Dictionary String) : List Line → Except Diagnostic (List Line)
  | [] => .ok []
  | line :: lines =>
    match line.map (rename defs) with
    | [] => (substituteFrom defs lines).map ([] :: ·)
    | head :: rest =>
      if head.isDirective "#def" then
        match rest with
        | [key, value] =>
          if key.isDelimiter || value.isDelimiter then .error (fault head rest)
          else substituteFrom (defs.insert key.text value.text) lines
        | _ => .error (fault head rest)
      else (substituteFrom defs lines).map ((head :: rest) :: ·)

/-- The lines of a program with its definitions applied and removed. -/
def substitute (lines : List Line) : Except Diagnostic (List Line) :=
  substituteFrom Dictionary.empty lines

end Definition
end CircuitRom
