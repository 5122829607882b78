import CircuitRom.Text.Letters

/-!
# Tokens

A source line is a list of tokens.  A token remembers where it was written, and, once a macro has
been expanded, from which place of the macro's body it was copied.
-/

namespace CircuitRom

/-- A place in the source. -/
structure Site where
  /-- The number of the line, from one. -/
  line : Nat
  /-- The number of characters before the place on its line. -/
  col : Nat
  /-- The whole line as written. -/
  raw : String
deriving DecidableEq, Repr, Inhabited

namespace Site

/-- The site of tokens that the assembler adds itself. -/
def nowhere : Site := ⟨0, 0, ""⟩

/-- Is this the site of a token that nobody wrote? -/
def isNowhere (s : Site) : Bool := s.line == 0

end Site

/-- The part that a token plays on its line. -/
inductive Kind
  /-- The word that names the operation. -/
  | opcode
  /-- A word after the opcode. -/
  | operand
  /-- One of `[`, `]` and `,`. -/
  | delimiter
  /-- A name in front of a colon. -/
  | symbolic
  /-- A single digit in front of a colon. -/
  | numeric
  /-- The colon after a label. -/
  | colon
  /-- A word with characters outside printable ASCII. -/
  | unknown
deriving DecidableEq, Repr

/-- Is this the kind of a label? -/
def Kind.isLabel : Kind → Bool
  | symbolic | numeric => true
  | _ => false

/-- A word or mark of the source. -/
structure Token where
  /-- The characters of the token. -/
  text : String
  /-- Its part on the line. -/
  kind : Kind
  /-- Where it was written. -/
  site : Site
  /-- The place in a macro's body that it was copied from. -/
  origin : Option Site := none
deriving DecidableEq, Repr

namespace Token

/-- Is the token one of `[`, `]` and `,`? -/
def isDelimiter (t : Token) : Bool := t.kind == .delimiter

/-- Is the token the given directive, such as `#def`, in letters of either case? -/
def isDirective (t : Token) (name : String) : Bool := Text.sameLetters t.text name

end Token

/-- The tokens of a source line.  No stage produces an empty line. -/
abbrev Line := List Token

namespace Line

/-- Is the line headed by the given directive? -/
def isHeadedBy (line : Line) (name : String) : Bool :=
  line.head?.any (·.isDirective name)

/-- The number of `label :` pairs at the start of a line. -/
def labelCount : Line → Nat
  | label :: colon :: rest =>
    if label.kind.isLabel && colon.kind == .colon then labelCount rest + 1 else 0
  | _ => 0

/-- The `label :` pairs at the start of a line. -/
def labelPart (line : Line) : Line := line.take (2 * line.labelCount)

/-- The tokens after the `label :` pairs. -/
def statement (line : Line) : Line := line.drop (2 * line.labelCount)

/-- The labels at the start of a line, without their colons. -/
def labels : Line → List Token
  | label :: colon :: rest =>
    if label.kind.isLabel && colon.kind == .colon then label :: labels rest else []
  | _ => []

theorem labelPart_append_statement (line : Line) : line.labelPart ++ line.statement = line :=
  List.take_append_drop _ _

end Line
end CircuitRom
