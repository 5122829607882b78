import CircuitRom.Yaml.Scalar

/-!
# Plain scalars

A plain scalar ends before a comment, before a colon that ends a word, at the end of its block, and
inside brackets before a comma or a bracket.
-/

namespace CircuitRom
namespace Yaml

/-- A plain scalar that has been read. -/
structure PlainScalar where
  /-- Its text. -/
  text : List Char
  /-- Whether a line has ended after it. -/
  endsLine : Bool
  /-- What follows. -/
  rest : Cursor
deriving DecidableEq, Repr

namespace PlainScalar

/-- Whether a colon before the given character is a mistake inside brackets. -/
def isStrayColon (next? : Option Char) : Bool := next?.any fun c => c == '?' || isFlowMark c

/-- Whether the scalar ends before a character inside a word. -/
def endsBefore (flow : Bool) (c : Char) (next? : Option Char) : Bool :=
  (c == ':' && endsWord next?) || (flow && isFlowMark c)

/-- Whether the scalar ends before a word that starts here. -/
def endsAt (flow : Bool) (indent : Nat) (c : Cursor) : Bool :=
  (!flow && decide (c.mark.col < indent)) || c.atMarker || c.head? == some '#'

/-- Read the rest of a scalar that starts at `start`, after the gap and the text in reverse that
have been read.  Its lines are indented by at least `indent`. -/
def readFrom (flow : Bool) (indent : Nat) (start : Mark) (gap : Gap) (done : List Char)
    (mark : Mark) : List Char → Except Fault PlainScalar
  | [] => .ok ⟨done.reverse, gap.endsLine, ⟨[], mark⟩⟩
  | c :: rest =>
    let here : Cursor := ⟨c :: rest, mark⟩
    if isGap c then
      if c = '\t' ∧ gap.endsLine ∧ mark.col < indent then
        .error (here.fault .tabInIndent .plain start)
      else readFrom flow indent start (gap.push c) done (mark.after c) rest
    else if gap ≠ .none ∧ endsAt flow indent here then .ok ⟨done.reverse, gap.endsLine, here⟩
    else if flow ∧ c = ':' ∧ isStrayColon rest.head? then
      .error (here.fault .strayColon .plain start)
    else if endsBefore flow c rest.head? then .ok ⟨done.reverse, gap.endsLine, here⟩
    else readFrom flow indent start .none (c :: gap.onto done) (mark.after c) rest

/-- Read a plain scalar. -/
def read (flow : Bool) (indent : Nat) (c : Cursor) : Except Fault PlainScalar :=
  readFrom flow indent c.mark .none [] c.mark c.rest

/-- The text of the plain scalar in front of a text. -/
def textOf? (flow : Bool) (indent : Nat) (text : String) : Option String :=
  match read flow indent ⟨text.toList, {}⟩ with
  | .ok s => some (String.ofList s.text)
  | .error _ => none

example : textOf? false 1 "a b # c" = some "a b" := by decide
example : textOf? false 1 "a\n b\n\n c\nd" = some "a b\nc" := by decide
example : textOf? false 1 "a:b c: d" = some "a:b c" := by decide
example : textOf? true 0 "a:b, c" = some "a:b" := by decide
example : textOf? true 0 "a:?b" = none := by decide
example : textOf? false 1 "a\n\tb" = none := by decide

end PlainScalar
end Yaml
end CircuitRom
