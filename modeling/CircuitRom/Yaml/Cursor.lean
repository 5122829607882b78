import CircuitRom.Yaml.Fault

/-!
# Places in a YAML text

A cursor is what is left of a text together with the place where it starts.
-/

namespace CircuitRom
namespace Yaml

/-! ## Characters -/

/-- Whether a character is a blank inside a line. -/
def isBlank (c : Char) : Bool := c == ' ' || c == '\t'

/-- Whether a character ends a line. -/
def isBreak (c : Char) : Bool := c == '\n' || c == '\u2028' || c == '\u2029'

/-- Whether a character separates words. -/
def isGap (c : Char) : Bool := isBlank c || isBreak c

/-- Whether a word ends before the given character, or at the end of the text. -/
def endsWord (next? : Option Char) : Bool := next?.all isGap

/-- Whether a character may stand in a name. -/
def isNameChar (c : Char) : Bool := c.isAlphanum || c == '_' || c == '-'

/-- Whether a character has a meaning inside brackets. -/
def isFlowMark (c : Char) : Bool := ",[]\x7b\x7d".toList.contains c

/-- The place after a character. -/
def Mark.after (mark : Mark) (c : Char) : Mark :=
  if isBreak c then ⟨mark.line + 1, 0, 0⟩
  else ⟨mark.line, mark.col + 1, mark.bytes + c.utf8Size⟩

/-! ## Cursors -/

/-- What is left of a text. -/
structure Cursor where
  /-- The characters. -/
  rest : List Char
  /-- Where they start. -/
  mark : Mark := {}
deriving DecidableEq, Repr

namespace Cursor

/-- The next character. -/
def head? (c : Cursor) : Option Char := c.rest.head?

/-- Pass over a character. -/
def next (c : Cursor) : Cursor :=
  match c.rest with
  | [] => c
  | first :: rest => ⟨rest, c.mark.after first⟩

/-- Pass over `n` characters. -/
def drop (c : Cursor) : Nat → Cursor
  | 0 => c
  | n + 1 => c.next.drop n

/-- Pass over the characters of a class, from a place on. -/
def skipFrom (p : Char → Bool) (mark : Mark) : List Char → Cursor
  | [] => ⟨[], mark⟩
  | c :: rest => if p c then skipFrom p (mark.after c) rest else ⟨c :: rest, mark⟩

/-- Pass over the characters of a class. -/
def skipWhile (c : Cursor) (p : Char → Bool) : Cursor := skipFrom p c.mark c.rest

/-- Read the characters of a class. -/
def takeWhile (c : Cursor) (p : Char → Bool) : List Char × Cursor :=
  (c.rest.takeWhile p, c.skipWhile p)

/-- A fault at the cursor, met while reading something that starts at a place. -/
def fault (c : Cursor) (problem : Problem) (context : Context) (start : Mark) : Fault :=
  ⟨problem, c.mark, some (context, start)⟩

/-- Pass over blanks and a comment to the next line.  Nothing else may follow on the line. -/
def finishLine (c : Cursor) (context : Context) (start : Mark) : Except Fault Cursor :=
  let c := c.skipWhile isBlank
  let c := if c.head? = some '#' then c.skipWhile (!isBreak ·) else c
  if c.head?.all isBreak then .ok c.next else .error (c.fault .lineGoesOn context start)

/-- Whether three equal characters stand alone at the front of a line. -/
def isMarker (c : Cursor) (character : Char) : Bool :=
  c.mark.col == 0 && c.rest.take 3 == List.replicate 3 character && endsWord (c.rest.drop 3).head?

/-- Whether a document starts or ends here. -/
def atMarker (c : Cursor) : Bool := c.isMarker '-' || c.isMarker '.'

end Cursor
end Yaml
end CircuitRom
