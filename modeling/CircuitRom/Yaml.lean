import CircuitRom.Yaml.Layout
import CircuitRom.Yaml.Node

/-!
# Flat YAML documents

A document is nothing, a scalar, a sequence or a mapping of scalars.  It is read up to the first
fault, and also what stands in front of the fault counts.
-/

namespace CircuitRom
namespace Yaml

/-! ## Names -/

/-- A node, and whether it stands elsewhere in the text. -/
structure Field where
  /-- The node. -/
  node : Node
  /-- Whether only its name stands here. -/
  aliased : Bool := false
deriving DecidableEq, Repr

/-- The names of nodes.  A name is kept as a number, namely how many names are kept when it is
given; the number of a name that is given again may go to another name later. -/
structure Anchors where
  /-- The number of each name. -/
  numbers : List (String × Nat) := []
  /-- The node of each number, the last one first. -/
  nodes : List (Nat × Node) := []
deriving DecidableEq, Repr

namespace Anchors

/-- Name a node. -/
def add (anchors : Anchors) (name? : Option String) (node : Node) : Anchors :=
  match name? with
  | none => anchors
  | some name =>
    let number := anchors.numbers.length
    { numbers := (name, number) :: anchors.numbers.filter (·.1 ≠ name)
      nodes := (number, node) :: anchors.nodes }

/-- The nodes of a text with the numbers of those that stand elsewhere, up to a name that is not
known. -/
def link (anchors : Anchors) : List Item → List (Node ⊕ Nat) × Anchors × Option Fault
  | [] => ([], anchors, none)
  | .node name? node :: rest =>
    let (links, last) := (anchors.add name? node).link rest
    (.inl node :: links, last)
  | .reference name mark :: rest =>
    match anchors.numbers.lookup name with
    | none => ([], anchors, some { problem := .unknownAnchor, mark := mark })
    | some number =>
      let (links, last) := anchors.link rest
      (.inr number :: links, last)

/-- The node of a number. -/
def resolve (anchors : Anchors) : Node ⊕ Nat → Option Field
  | .inl node => some { node := node }
  | .inr number => (anchors.nodes.lookup number).map fun node => { node := node, aliased := true }

end Anchors

/-! ## Documents -/

/-- What a document holds. -/
inductive Content where
  /-- Nothing. -/
  | empty
  /-- A scalar. -/
  | scalar (s : Scalar)
  /-- A sequence that starts at a place. -/
  | sequence (mark : Mark)
  /-- A mapping that starts at a place, its keys and values in turn. -/
  | fields (mark : Mark) (fields : List Field)
deriving DecidableEq, Repr

/-- How a text goes on after a document. -/
inductive Ending where
  /-- It ends. -/
  | complete
  /-- Something follows. -/
  | more
  /-- It has not been looked at, because the document holds more than scalars. -/
  | unread
  /-- There is a fault inside the document. -/
  | fault (fault : Fault)
deriving DecidableEq, Repr

/-- A document. -/
structure Document where
  /-- What it holds. -/
  content : Content
  /-- What comes after it. -/
  ending : Ending
deriving DecidableEq, Repr

namespace Document

/-- Pass over marks that end a document. -/
def skipEnds : Tokens → Tokens
  | .cons token rest => if token.kind = .documentEnd then skipEnds rest else .cons token rest
  | tokens => tokens

/-- How a text goes on after the content of a document. -/
def endingOf (tokens : Tokens) : Ending :=
  match tokens with
  | .fault fault => .fault fault
  | tokens =>
    match skipEnds tokens with
    | .finish _ => .complete
    | _ => .more

/-- The document that holds a mapping of a name. -/
def ofMapping (handles : Handles) (name? : Option String) (mark : Mark) (tokens : Tokens) :
    Document :=
  let (items, outcome) := readMapping handles tokens
  let (links, anchors, fault?) := (Anchors.add {} name? (.mapping mark)).link items
  { content := .fields mark (links.filterMap anchors.resolve)
    ending :=
      match fault?, outcome with
      | some fault, _ => .fault fault
      | none, .fault fault => .fault fault
      | none, .nested => .unread
      | none, .closed rest => endingOf rest }

/-- Read the content of a document. -/
def readContent (handles : Handles) (tokens : Tokens) : Except Fault Document := do
  let (item, rest) ← Item.read handles true false tokens
  match item with
  | .reference _ mark => .error { problem := .unknownAnchor, mark := mark }
  | .node _ (.scalar s) => return ⟨.scalar s, endingOf rest⟩
  | .node _ (.sequence mark) => return ⟨.sequence mark, .unread⟩
  | .node name? (.mapping mark) => return ofMapping handles name? mark rest

/-- What tag handles stand for without a declaration. -/
def defaultHandles : Handles := [("!", "!"), ("!!", "tag:yaml.org,2002:")]

/-- Whether a version of the format is supported. -/
def isSupported (major minor : Nat) : Bool := major == 1 && (minor == 1 || minor == 2)

/-- Read directives, given whether there has been a version and the handles declared before. -/
def readDirectives (versioned : Bool) (handles : Handles) : Tokens → Except Fault (Handles × Tokens)
  | .cons token rest =>
    match token.kind with
    | .version major minor =>
      if versioned then .error { problem := .repeatedVersion, mark := token.start }
      else if !isSupported major minor then
        .error { problem := .wrongVersion, mark := token.start }
      else readDirectives true handles rest
    | .declaration handle expansion =>
      if (handles.lookup handle).isSome then
        .error { problem := .repeatedHandle, mark := token.start }
      else readDirectives versioned (handles ++ [(handle, expansion)]) rest
    | _ => .ok (handles, .cons token rest)
  | .fault fault => .error fault
  | .finish mark => .ok (handles, .finish mark)

/-- Whether a document without content ends before the given token. -/
def endsDocument : TokenKind → Bool
  | .version _ _ | .declaration _ _ | .documentStart | .documentEnd | .finish => true
  | _ => false

/-- Read a document whose start is marked. -/
def readMarked (tokens : Tokens) : Except Fault Document := do
  let (handles, tokens) ← readDirectives false [] tokens
  let first ← tokens.head
  if first.kind ≠ .documentStart then
    .error { problem := .missingDocument, mark := first.start }
  else
    let next ← tokens.tail.head
    if endsDocument next.kind then return ⟨.empty, endingOf tokens.tail⟩
    else readContent (handles ++ defaultHandles) tokens.tail

/-- Read the first document. -/
def ofTokens (tokens : Tokens) : Except Fault Document := do
  let first ← tokens.head
  match first.kind with
  | .finish => return ⟨.empty, .complete⟩
  | .version _ _ | .declaration _ _ | .documentStart => readMarked tokens
  | _ => readContent defaultHandles tokens

/-! ## Texts -/

/-- One line end for each of the ways to end a line.  The separators of lines and paragraphs stay
as they are. -/
def unifyBreaks : List Char → List Char
  | '\r' :: '\n' :: rest => '\n' :: unifyBreaks rest
  | c :: rest => (if c = '\r' ∨ c = '\u0085' then '\n' else c) :: unifyBreaks rest
  | [] => []

/-- Whether a character may stand in a text. -/
def isAllowed (c : Char) : Bool :=
  let n := c.toNat
  n == 0x09 || n == 0x0A || n == 0x0D || n == 0x85 ||
    decide (0x20 ≤ n ∧ n ≤ 0x7E) || decide (0xA0 ≤ n ∧ n ≤ 0xD7FF) ||
    decide (0xE000 ≤ n ∧ n ≤ 0xFFFD) || decide (0x10000 ≤ n)

/-- The number of bytes before the first character that may not stand in a text. -/
def badCharacter? (bytes : Nat) : List Char → Option Nat
  | [] => none
  | c :: rest => if isAllowed c then badCharacter? (bytes + c.utf8Size) rest else some bytes

/-- Read the first document of a text.  A mark of the byte order may stand in front. -/
def parse (text : String) : Except Fault Document :=
  let cs := text.toList
  match badCharacter? 0 cs with
  | some bytes => .error { problem := .controlCharacter bytes }
  | none =>
    ofTokens (Tokens.ofChars (unifyBreaks (if cs.head? = some '\ufeff' then cs.tail else cs)))

end Document
end Yaml
end CircuitRom
