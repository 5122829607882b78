/-!
# What is wrong with a YAML text

A fault names a problem and its place, and mostly also what was being read and where that starts.
-/

namespace CircuitRom
namespace Yaml

/-- A place in a text.  Lines and columns count from zero. -/
structure Mark where
  /-- The line. -/
  line : Nat := 0
  /-- The characters of the line before the place. -/
  col : Nat := 0
  /-- The bytes of the line before the place. -/
  bytes : Nat := 0
deriving DecidableEq, Repr

/-- Whether two places are shown alike. -/
def Mark.sameAs (a b : Mark) : Bool := a.line == b.line && a.col == b.col

/-- The place as it follows a message.  The start of the text is not worth mentioning. -/
def Mark.suffix (mark : Mark) : String :=
  if mark.sameAs {} then "" else s!" at line {mark.line + 1} column {mark.col + 1}"

/-- What is being read when a problem shows up. -/
inductive Context where
  /-- The next token. -/
  | token
  /-- A key without a mark in front. -/
  | key
  /-- A plain scalar. -/
  | plain
  /-- A quoted scalar. -/
  | quoted
  /-- An escape inside a quoted scalar. -/
  | escape
  /-- A block scalar. -/
  | block
  /-- An anchor. -/
  | anchor
  /-- An alias. -/
  | reference
  /-- A tag. -/
  | tag
  /-- The name in a tag. -/
  | tagName
  /-- A directive. -/
  | directive
  /-- A directive that gives the version. -/
  | version
  /-- A directive that declares a tag handle. -/
  | declaration
  /-- The name in a directive that declares a tag handle. -/
  | declaredName
  /-- The start of the handle in a directive. -/
  | handleStart
  /-- The end of the handle in a directive. -/
  | handleEnd
  /-- A node. -/
  | node
  /-- A node outside of brackets. -/
  | blockNode
  /-- A node inside brackets. -/
  | flowNode
  /-- A mapping outside of brackets. -/
  | blockMapping
  /-- A mapping inside braces. -/
  | flowMapping
deriving DecidableEq, Repr

/-- The wording of a context. -/
def Context.message : Context → String
  | token => "while scanning for the next token"
  | key => "while scanning a simple key"
  | plain => "while scanning a plain scalar"
  | quoted => "while scanning a quoted scalar"
  | escape => "while parsing a quoted scalar"
  | block => "while scanning a block scalar"
  | anchor => "while scanning an anchor"
  | reference => "while scanning an alias"
  | tag => "while scanning a tag"
  | tagName => "while parsing a tag"
  | directive => "while scanning a directive"
  | version => "while scanning a %YAML directive"
  | declaration => "while scanning a %TAG directive"
  | declaredName => "while parsing a %TAG directive"
  | handleStart => "while scanning a tag directive"
  | handleEnd => "while parsing a tag directive"
  | node => "while parsing a node"
  | blockNode => "while parsing a block node"
  | flowNode => "while parsing a flow node"
  | blockMapping => "while parsing a block mapping"
  | flowMapping => "while parsing a flow mapping"

/-- What is wrong. -/
inductive Problem where
  /-- A character that no text may hold, after the given number of bytes. -/
  | controlCharacter (bytes : Nat)
  /-- A character with which no token starts. -/
  | badStart
  /-- A key without a colon. -/
  | missingColon
  /-- A `-` where no entry may start. -/
  | entryNotAllowed
  /-- A `?` where no key may start. -/
  | keyNotAllowed
  /-- A `:` where no value may start. -/
  | valueNotAllowed
  /-- A colon before a character that would end the scalar. -/
  | strayColon
  /-- A tab among the blanks that indent a plain scalar. -/
  | tabInIndent
  /-- A document that starts or ends inside quotes. -/
  | documentInQuotes
  /-- Quotes that are not closed. -/
  | unclosedQuotes
  /-- An escape that stands for nothing. -/
  | unknownEscape
  /-- An escape with too few digits. -/
  | missingDigits
  /-- An escape with a number that belongs to no character. -/
  | noCharacter
  /-- A block scalar that is to be indented by nothing. -/
  | zeroIndent
  /-- A tab among the blanks that indent a block scalar. -/
  | tabInBlock
  /-- More on a line that should have ended. -/
  | lineGoesOn
  /-- An anchor or alias without a name. -/
  | missingName
  /-- A tag without a `!`. -/
  | missingBang
  /-- A tag without a name. -/
  | missingTagName
  /-- A `%` that starts no escape. -/
  | badOctet
  /-- An escape that starts no character. -/
  | badLeadingOctet
  /-- An escape that does not go on with the character. -/
  | badTrailingOctet
  /-- A tag in brackets that are not closed. -/
  | unclosedTag
  /-- A word that goes on. -/
  | wordGoesOn
  /-- A handle that is not followed by a blank. -/
  | missingBlank
  /-- A directive without a name. -/
  | missingDirective
  /-- The name of a directive that goes on with other characters. -/
  | badDirectiveName
  /-- A directive of an unknown name. -/
  | unknownDirective
  /-- A version without a number. -/
  | missingVersion
  /-- A version of too many digits. -/
  | longVersion
  /-- A version without a point. -/
  | missingPoint
  /-- A second version. -/
  | repeatedVersion
  /-- A version that is not supported. -/
  | wrongVersion
  /-- A second declaration of a handle. -/
  | repeatedHandle
  /-- Directives without a document. -/
  | missingDocument
  /-- A handle without a declaration. -/
  | unknownHandle
  /-- Nothing where a node should stand. -/
  | missingNode
  /-- No key where one should stand. -/
  | missingKey
  /-- Neither a comma nor a closing brace. -/
  | missingComma
  /-- An alias of an anchor that has not been set. -/
  | unknownAnchor
deriving DecidableEq, Repr

/-- The wording of a problem. -/
def Problem.message : Problem → String
  | controlCharacter bytes =>
    "control characters are not allowed" ++ (if bytes = 0 then "" else s!" at position {bytes}")
  | badStart => "found character that cannot start any token"
  | missingColon => "could not find expected ':'"
  | entryNotAllowed => "block sequence entries are not allowed in this context"
  | keyNotAllowed => "mapping keys are not allowed in this context"
  | valueNotAllowed => "mapping values are not allowed in this context"
  | strayColon => "found unexpected ':'"
  | tabInIndent => "found a tab character that violates indentation"
  | documentInQuotes => "found unexpected document indicator"
  | unclosedQuotes => "found unexpected end of stream"
  | unknownEscape => "found unknown escape character"
  | missingDigits => "did not find expected hexdecimal number"
  | noCharacter => "found invalid Unicode character escape code"
  | zeroIndent => "found an indentation indicator equal to 0"
  | tabInBlock => "found a tab character where an indentation space is expected"
  | lineGoesOn => "did not find expected comment or line break"
  | missingName => "did not find expected alphabetic or numeric character"
  | missingBang => "did not find expected '!'"
  | missingTagName => "did not find expected tag URI"
  | badOctet => "did not find URI escaped octet"
  | badLeadingOctet => "found an incorrect leading UTF-8 octet"
  | badTrailingOctet => "found an incorrect trailing UTF-8 octet"
  | unclosedTag => "did not find the expected '>'"
  | wordGoesOn => "did not find expected whitespace or line break"
  | missingBlank => "did not find expected whitespace"
  | missingDirective => "could not find expected directive name"
  | badDirectiveName => "found unexpected non-alphabetical character"
  | unknownDirective => "found unknown directive name"
  | missingVersion => "did not find expected version number"
  | longVersion => "found extremely long version number"
  | missingPoint => "did not find expected digit or '.' character"
  | repeatedVersion => "found duplicate %YAML directive"
  | wrongVersion => "found incompatible YAML document"
  | repeatedHandle => "found duplicate %TAG directive"
  | missingDocument => "did not find expected <document start>"
  | unknownHandle => "found undefined tag handle"
  | missingNode => "did not find expected node content"
  | missingKey => "did not find expected key"
  | missingComma => "did not find expected ',' or '\x7d'"
  | unknownAnchor => "unknown anchor"

/-- Why a text is no YAML text. -/
structure Fault where
  /-- What is wrong. -/
  problem : Problem
  /-- Where it is wrong. -/
  mark : Mark := {}
  /-- What was being read, and where that starts. -/
  context : Option (Context × Mark) := none
deriving DecidableEq, Repr

/-- The wording of a fault.  The place where the context starts is left out if it is the place of
the problem. -/
def Fault.message (fault : Fault) : String :=
  let context :=
    match fault.context with
    | none => ""
    | some (context, mark) =>
      ", " ++ context.message ++ (if mark.sameAs fault.mark then "" else mark.suffix)
  fault.problem.message ++ fault.mark.suffix ++ context

end Yaml
end CircuitRom
