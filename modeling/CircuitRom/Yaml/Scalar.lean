import CircuitRom.Yaml.Cursor

/-!
# YAML scalars

A scalar is a text, written plainly, in quotes or as a block.  A plain or quoted text may go on in
the next line: the line end then counts as a blank, and every further line end as itself.
-/

namespace CircuitRom
namespace Yaml

/-- How a scalar is written. -/
inductive Style where
  /-- Without any mark. -/
  | plain
  /-- In single or double quotes. -/
  | quoted
  /-- As a block whose line ends stay. -/
  | literal
  /-- As a block whose line ends count as blanks. -/
  | folded
deriving DecidableEq, Repr

/-- What stands between two words of a scalar. -/
inductive Gap where
  /-- Blanks inside a line, in reverse. -/
  | blanks (cs : List Char)
  /-- Line ends: the first one, unless it has been escaped, and those after it in reverse. -/
  | breaks (first : Option Char) (more : List Char)
deriving DecidableEq, Repr

namespace Gap

/-- No gap. -/
def none : Gap := .blanks []

/-- Whether a line has ended. -/
def endsLine : Gap → Bool
  | .blanks _ => false
  | .breaks _ _ => true

/-- Add a blank or a line end.  Blanks around line ends do not count. -/
def push : Gap → Char → Gap
  | .blanks cs, c => if isBreak c then .breaks (some c) [] else .blanks (c :: cs)
  | .breaks first more, c => .breaks first (if isBreak c then c :: more else more)

/-- The text that a gap stands for. -/
def text : Gap → List Char
  | .blanks cs => cs.reverse
  | .breaks (some '\n') [] => [' ']
  | .breaks (some '\n') more => more.reverse
  | .breaks first more => first.toList ++ more.reverse

/-- Add what a gap stands for to a text in reverse. -/
def onto (gap : Gap) (done : List Char) : List Char := gap.text.reverse ++ done

example : ("  \n \n".toList.foldl push none).text = ['\n'] := by decide
example : (" \n\t ".toList.foldl push none).text = [' '] := by decide
example : ("\u2028 \n".toList.foldl push none).text = ['\u2028', '\n'] := by decide

end Gap
end Yaml
end CircuitRom
