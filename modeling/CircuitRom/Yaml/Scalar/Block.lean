import CircuitRom.Text.Digits
import CircuitRom.Yaml.Scalar

/-!
# Block scalars

A block scalar holds the lines below its mark, less what they are indented by.  A literal block
keeps the line ends, a folded one joins lines that do not start with a blank.
-/

namespace CircuitRom
namespace Yaml

/-- What becomes of the line ends after the last line. -/
inductive Chomp where
  /-- All go. -/
  | strip
  /-- One stays. -/
  | clip
  /-- All stay. -/
  | keep
deriving DecidableEq, Repr

namespace BlockScalar

/-! ## The first line -/

/-- What a character says about the line ends after the last line. -/
def chomp? : Option Char → Option Chomp
  | some '+' => some .keep
  | some '-' => some .strip
  | _ => none

/-- Read the digit that says how far the lines are indented; zero if there is none. -/
def readIndent (start : Mark) (c : Cursor) : Except Fault (Nat × Cursor) :=
  match c.head?.bind (Text.digit? 10) with
  | none => .ok (0, c)
  | some 0 => .error (c.fault .zeroIndent .block start)
  | some n => .ok (n, c.next)

/-- Read what follows the mark of a block, in either order. -/
def readHeader (start : Mark) (c : Cursor) : Except Fault (Chomp × Nat × Cursor) :=
  match chomp? c.head? with
  | some chomp => do
    let (n, c) ← readIndent start c.next
    return (chomp, n, c)
  | none => do
    let (n, c) ← readIndent start c
    match chomp? c.head? with
    | some chomp => return (chomp, n, c.next)
    | none => return (.clip, n, c)

/-! ## The lines -/

/-- What stands before a line of text. -/
structure Margin where
  /-- The ends of the empty lines. -/
  breaks : List Char
  /-- The width of the widest of them, and of the indentation. -/
  widest : Nat
  /-- The line of text. -/
  rest : Cursor
deriving DecidableEq, Repr

/-- Pass over indentation and empty lines.  If it is known how far lines are indented, blanks
beyond that belong to the line. -/
def readMargin (start : Mark) (indent : Option Nat) (widest : Nat) (breaks : List Char)
    (mark : Mark) : List Char → Except Fault Margin
  | [] => .ok ⟨breaks.reverse, max widest mark.col, ⟨[], mark⟩⟩
  | c :: rest =>
    let inside := indent.all (mark.col < ·)
    let wider := max widest mark.col
    if inside ∧ c = ' ' then readMargin start indent widest breaks (mark.after c) rest
    else if inside ∧ c = '\t' then .error ⟨.tabInBlock, mark, some (.block, start)⟩
    else if isBreak c then readMargin start indent wider (c :: breaks) (mark.after c) rest
    else .ok ⟨breaks.reverse, wider, ⟨c :: rest, mark⟩⟩

/-- A block while its lines are read. -/
structure Lines where
  /-- The text of the lines. -/
  text : List Char := []
  /-- Whether the last line starts with a blank. -/
  startsBlank : Bool := false
  /-- The end of the last line. -/
  lineEnd : List Char := []
  /-- The ends of the empty lines after it. -/
  breaks : List Char := []
deriving DecidableEq, Repr

/-- What joins the lines read so far with the next one. -/
def Lines.joint (lines : Lines) (folded startsBlank : Bool) : List Char :=
  if folded ∧ lines.lineEnd = ['\n'] ∧ !lines.startsBlank ∧ !startsBlank then
    if lines.breaks = [] then [' '] else lines.breaks
  else lines.lineEnd ++ lines.breaks

/-- The text of all lines. -/
def Lines.finish (lines : Lines) : Chomp → List Char
  | .strip => lines.text
  | .clip => lines.text ++ lines.lineEnd
  | .keep => lines.text ++ lines.lineEnd ++ lines.breaks

/-- Read the lines that are indented by `indent`, at most `fuel` of them. -/
def readLines (folded : Bool) (start : Mark) (indent : Nat) :
    Nat → Lines → Cursor → Except Fault (Lines × Cursor)
  | 0, lines, c => .ok (lines, c)
  | fuel + 1, lines, c =>
    if c.mark.col ≠ indent ∨ c.rest = [] then .ok (lines, c)
    else do
      let startsBlank := c.head?.any isBlank
      let (line, c) := c.takeWhile (!isBreak ·)
      let margin ← readMargin start (some indent) 0 [] c.next.mark c.next.rest
      let lines : Lines :=
        { text := lines.text ++ lines.joint folded startsBlank ++ line
          startsBlank := startsBlank
          lineEnd := c.head?.toList
          breaks := margin.breaks }
      readLines folded start indent fuel lines margin.rest

/-- Read a block scalar inside a block whose lines are indented by at least `outer`. -/
def read (folded : Bool) (outer : Nat) (c : Cursor) : Except Fault (List Char × Cursor) := do
  let start := c.mark
  let (chomp, n, c) ← readHeader start c.next
  let c ← c.finishLine .block start
  let given := if n = 0 then none else some (outer - 1 + n)
  let margin ← readMargin start given 0 [] c.mark c.rest
  let indent := given.getD (max 1 (max margin.widest outer))
  let (lines, c) ←
    readLines folded start indent c.rest.length { breaks := margin.breaks } margin.rest
  return (lines.finish chomp, c)

/-- The text of the block scalar in front of a text. -/
def textOf? (folded : Bool) (text : String) : Option String :=
  match read folded 1 ⟨text.toList, {}⟩ with
  | .ok (cs, _) => some (String.ofList cs)
  | .error _ => none

example : textOf? false "|\n  a\n   b\n\n  c\n\nd" = some "a\n b\n\nc\n" := by decide
example : textOf? true ">\n  a\n  b\n\n  c\n   d\n  e\n" = some "a b\nc\n d\ne\n" := by decide
example : textOf? false "|-\n a\n\n" = some "a" := by decide
example : textOf? false "|+ # c\n a\n\n" = some "a\n\n" := by decide
example : textOf? false "|2\n   a\n" = some " a\n" := by decide
example : ["|0\n a", "| a", "|\n \ta", "|\n\ta"].map (textOf? false) =
    [none, none, none, none] := by decide

end BlockScalar
end Yaml
end CircuitRom
