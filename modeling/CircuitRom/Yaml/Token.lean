import CircuitRom.Yaml.Scalar

/-!
# YAML tokens

A text is cut into tokens before it is read.  Some of them stand for no characters: blocks are
opened and closed by the indentation alone, and a key is only known by the colon after it.
-/

namespace CircuitRom
namespace Yaml

/-- What a token is. -/
inductive TokenKind where
  /-- The end of the text. -/
  | finish
  /-- The version of the format. -/
  | version (major minor : Nat)
  /-- What a tag handle stands for. -/
  | declaration (handle expansion : String)
  /-- The start of a document. -/
  | documentStart
  /-- The end of a document. -/
  | documentEnd
  /-- The start of a sequence in a block. -/
  | blockSequence
  /-- The start of a mapping in a block. -/
  | blockMapping
  /-- The end of a block. -/
  | blockEnd
  /-- An opening bracket. -/
  | flowSequence
  /-- A closing bracket. -/
  | flowSequenceEnd
  /-- An opening brace. -/
  | flowMapping
  /-- A closing brace. -/
  | flowMappingEnd
  /-- The mark of an entry of a sequence in a block. -/
  | blockEntry
  /-- The comma between entries in brackets. -/
  | flowEntry
  /-- The start of a key. -/
  | key
  /-- The start of a value. -/
  | value
  /-- A node that stands elsewhere. -/
  | reference (name : String)
  /-- The name of a node. -/
  | anchor (name : String)
  /-- The type of a node. -/
  | tag (handle name : String)
  /-- A scalar. -/
  | scalar (style : Style) (text : String)
deriving DecidableEq, Repr

/-- A token. -/
structure Token where
  /-- What it is. -/
  kind : TokenKind
  /-- Where it starts. -/
  start : Mark
  /-- Where it ends. -/
  stop : Mark
deriving DecidableEq, Repr

/-- The tokens of a text, up to its end or to the first fault. -/
inductive Tokens where
  /-- The text ends. -/
  | finish (mark : Mark)
  /-- There is a fault. -/
  | fault (fault : Fault)
  /-- A token stands before others. -/
  | cons (token : Token) (rest : Tokens)
deriving DecidableEq, Repr

namespace Tokens

/-- The next token. -/
def head : Tokens → Except Fault Token
  | .finish mark => .ok ⟨.finish, mark, mark⟩
  | .fault e => .error e
  | .cons token _ => .ok token

/-- The tokens after the next one. -/
def tail : Tokens → Tokens
  | .cons _ rest => rest
  | tokens => tokens

/-- The number of tokens. -/
def length : Tokens → Nat
  | .cons _ rest => rest.length + 1
  | _ => 0

end Tokens
end Yaml
end CircuitRom
