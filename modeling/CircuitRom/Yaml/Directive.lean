import CircuitRom.Yaml.Tag

/-!
# Directives

A line that starts with a percent sign gives the version of the format or declares what a tag
handle stands for.
-/

namespace CircuitRom
namespace Yaml
namespace Directive

/-- The greatest number of digits in a version. -/
def longestNumber : Nat := 9

/-- Read a number of a version. -/
def readNumber (start : Mark) (c : Cursor) : Except Fault (Nat × Cursor) :=
  let (digits, next) := c.takeWhile Char.isDigit
  if longestNumber < digits.length then
    .error ((c.drop longestNumber).fault .longVersion .version start)
  else
    match Text.number? 10 digits with
    | none => .error (c.fault .missingVersion .version start)
    | some n => .ok (n, next)

/-- Read the version of the format. -/
def readVersion (start : Mark) (c : Cursor) : Except Fault (TokenKind × Cursor) := do
  let (major, c) ← readNumber start (c.skipWhile isBlank)
  if c.head? ≠ some '.' then .error (c.fault .missingPoint .version start)
  else
    let (minor, c) ← readNumber start c.next
    return (.version major minor, c)

/-- Read a handle and what it stands for. -/
def readDeclaration (start : Mark) (c : Cursor) : Except Fault (TokenKind × Cursor) := do
  let (handle, c) ← Tag.readHandle .handleStart start (c.skipWhile isBlank)
  if handle ≠ ['!'] ∧ !Tag.isWholeHandle handle then
    .error (c.fault .missingBang .handleEnd start)
  else if !c.head?.any isBlank then .error (c.fault .missingBlank .declaration start)
  else
    let (name, c) ← Tag.readTagName true .declaredName start (c.skipWhile isBlank)
    if endsWord c.head? then return (.declaration (String.ofList handle) (String.ofList name), c)
    else .error (c.fault .wordGoesOn .declaration start)

/-- Read a directive to the end of its line. -/
def read (c : Cursor) : Except Fault (TokenKind × Mark × Cursor) := do
  let start := c.mark
  let (name, c) := c.next.takeWhile isNameChar
  if name = [] then .error (c.fault .missingDirective .directive start)
  else if !endsWord c.head? then .error (c.fault .badDirectiveName .directive start)
  else
    let (kind, c) ←
      if name = "YAML".toList then readVersion start c
      else if name = "TAG".toList then readDeclaration start c
      else .error (c.fault .unknownDirective .directive start)
    return (kind, c.mark, ← c.finishLine .directive start)

/-- The directive that a line consists of. -/
def ofText? (text : String) : Option TokenKind :=
  match read ⟨text.toList, {}⟩ with
  | .ok (kind, _, _) => some kind
  | .error _ => none

example : ["%YAML 1.2", "%YAML\t1.1 # c", "%TAG ! a:", "%TAG !e! tag:e,2000:"].map ofText? =
    [some (.version 1 2), some (.version 1 1), some (.declaration "!" "a:"),
      some (.declaration "!e!" "tag:e,2000:")] := by decide
example : ["%", "%A+", "%A 1", "%YAML", "%YAML 1", "%YAML 1.2x", "%YAML 1234567890.1", "%TAG !e a",
    "%TAG e a", "%TAG !!", "%TAG !! \n"].map ofText? = List.replicate 11 none := by decide

end Directive
end Yaml
end CircuitRom
