import CircuitRom.Diagnostic
import CircuitRom.Text.Blank
import CircuitRom.Text.Lines

/-!
# From source text to tokens

A line is first cut into lexemes: each of `:`, `[`, `]` and `,` stands alone, and every other
lexeme is a longest run of characters that are neither blank nor one of these.  What follows the
first `;` is a comment.  The lexemes are then given their kinds from left to right.

Labels come first on a line.  A printable word followed by a colon is a label as long as no opcode
has been read, the next printable word is the opcode, and all later ones are operands.
-/

namespace CircuitRom

/-- A run of characters of a source line. -/
structure Lexeme where
  /-- The number of characters before it. -/
  col : Nat
  /-- Its characters. -/
  chars : List Char
deriving DecidableEq, Repr

namespace Lexeme

/-! ## Cutting a line -/

/-- Is the character a lexeme of its own? -/
def isMark (c : Char) : Bool := c == ':' || c == '[' || c == ']' || c == ','

/-- Is the lexeme a colon? -/
def isColon (l : Lexeme) : Bool := l.chars == [':']

/-- Is the lexeme one of `[`, `]` and `,`? -/
def isDelimiter (l : Lexeme) : Bool :=
  l.chars == ['['] || l.chars == [']'] || l.chars == [',']

/-- Is the lexeme a word, and not a mark? -/
def isWord (l : Lexeme) : Bool := !l.isColon && !l.isDelimiter

/-- Are all characters printable ASCII? -/
def isPrintable (l : Lexeme) : Bool := l.chars.all fun c => '!' ≤ c && c ≤ '~'

/-- Put a character in front of the lexemes after it: it joins a word that starts right there. -/
def join (col : Nat) (c : Char) : List Lexeme → List Lexeme
  | next :: rest =>
    if next.col = col + 1 ∧ next.isWord then ⟨col, c :: next.chars⟩ :: rest
    else ⟨col, [c]⟩ :: next :: rest
  | [] => [⟨col, [c]⟩]

/-- The lexemes of a text that starts in the given column. -/
def scan (col : Nat) : List Char → List Lexeme
  | [] => []
  | c :: rest =>
    if Text.isBlank c then scan (col + 1) rest
    else if isMark c then ⟨col, [c]⟩ :: scan (col + 1) rest
    else join col c (scan (col + 1) rest)

/-- The lexeme as a token of a line. -/
def token (l : Lexeme) (number : Nat) (raw : String) (kind : Kind) : Token :=
  ⟨String.ofList l.chars, kind, ⟨number, l.col, raw⟩, none⟩

/-! ## Giving kinds -/

/-- The kind of a word in front of a colon. -/
def labelKind (l : Lexeme) : Kind :=
  match l.chars with
  | [c] => if c.isDigit then .numeric else .symbolic
  | _ => .symbolic

/-- The kind of a lexeme other than a colon, in front of the given ones.  `named` says that the
opcode has been read. -/
def kind (l : Lexeme) (named : Bool) (rest : List Lexeme) : Kind :=
  if l.isDelimiter then .delimiter
  else if !l.isPrintable then .unknown
  else if named then .operand
  else if rest.head?.any (·.isColon) then l.labelKind
  else .opcode

/-- The fault of a colon that no label precedes. -/
def strayColon (colon : Token) : Option Token → Diagnostic
  | none => .atToken .labelMissing colon
  | some previous => .atToken (.labelInvalid previous.text) previous

/-- The tokens of the lexemes of line `number`.  `named` says that the opcode has been read, and
`previous` is the token before the lexemes. -/
def classify (number : Nat) (raw : String) (named : Bool) (previous : Option Token) :
    List Lexeme → Except Diagnostic Line
  | [] => .ok []
  | l :: rest =>
    if l.isColon then
      let t := l.token number raw .colon
      if previous.any (·.kind.isLabel) then
        (classify number raw named (some t) rest).map (t :: ·)
      else .error (strayColon t previous)
    else
      let t := l.token number raw (l.kind named rest)
      (classify number raw (named || t.kind == .opcode) (some t) rest).map (t :: ·)

end Lexeme

/-! ## Whole texts -/

/-- The part of a line before its comment. -/
def codePart (raw : List Char) : List Char := raw.takeWhile (· ≠ ';')

/-- The tokens of one source line. -/
def lexLine (number : Nat) (raw : List Char) : Except Diagnostic Line :=
  Lexeme.classify number (String.ofList raw) false none (Lexeme.scan 0 (codePart raw))

/-- The tokens of a source text, line by line, without the lines that have none. -/
def tokenize (code : String) : Except Diagnostic (List Line) := do
  let lines ← ((Text.lines code.toList).zipIdx 1).mapM fun line => lexLine line.2 line.1
  return lines.filter (!·.isEmpty)

end CircuitRom
