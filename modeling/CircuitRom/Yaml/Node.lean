import CircuitRom.Yaml.Token

/-!
# Nodes of a flat document

A document is read node by node, so that what stands in front of a fault is known.  Sequences and
mappings inside the document are recognised and not entered.
-/

namespace CircuitRom
namespace Yaml

/-- A scalar. -/
structure Scalar where
  /-- The text. -/
  text : String
  /-- How it is written. -/
  style : Style := .plain
  /-- What it is said to be. -/
  tag : Option String := none
  /-- Where it starts. -/
  mark : Mark
deriving DecidableEq, Repr

/-- A node. -/
inductive Node where
  /-- A scalar. -/
  | scalar (s : Scalar)
  /-- A sequence that starts at a place. -/
  | sequence (mark : Mark)
  /-- A mapping that starts at a place. -/
  | mapping (mark : Mark)
deriving DecidableEq, Repr

/-- Whether a node is a sequence or a mapping. -/
def Node.isCollection : Node → Bool
  | .scalar _ => false
  | _ => true

/-- Where a node starts. -/
def Node.mark : Node → Mark
  | .scalar s => s.mark
  | .sequence mark => mark
  | .mapping mark => mark

/-- A node as it stands in a text. -/
inductive Item where
  /-- A node, perhaps with a name. -/
  | node (anchor : Option String) (node : Node)
  /-- The name of a node that stands elsewhere. -/
  | reference (name : String) (mark : Mark)
deriving DecidableEq, Repr

/-- Whether a sequence or a mapping stands there. -/
def Item.isCollection : Item → Bool
  | .node _ n => n.isCollection
  | .reference _ _ => false

/-- No node where one could stand. -/
def Item.absent (mark : Mark) : Item := .node none (.scalar { text := "", mark := mark })

/-! ## Single nodes -/

/-- What the tag handles stand for. -/
abbrev Handles := List (String × String)

/-- What stands in front of a node. -/
structure Properties where
  /-- Where it starts. -/
  start : Mark
  /-- The name of the node. -/
  anchor : Option String := none
  /-- The handle and the name of the tag, and where they stand. -/
  tag : Option (String × String × Mark) := none
deriving DecidableEq, Repr

/-- Read an anchor and a tag, in either order. -/
def Properties.read (tokens : Tokens) : Except Fault (Properties × Tokens) := do
  let first ← tokens.head
  let rest := tokens.tail
  match first.kind with
  | .anchor anchor =>
    let second ← rest.head
    match second.kind with
    | .tag handle name =>
      return (⟨first.start, some anchor, some (handle, name, second.start)⟩, rest.tail)
    | _ => return ({ start := first.start, anchor := some anchor }, rest)
  | .tag handle name =>
    let tag := some (handle, name, first.start)
    let second ← rest.head
    match second.kind with
    | .anchor anchor => return (⟨first.start, some anchor, tag⟩, rest.tail)
    | _ => return ({ start := first.start, tag := tag }, rest)
  | _ => return ({ start := first.start }, tokens)

/-- The tag in full. -/
def Properties.fullTag (p : Properties) (handles : Handles) : Except Fault (Option String) :=
  match p.tag with
  | none => .ok none
  | some (handle, name, mark) =>
    if handle = "" then .ok (some name)
    else
      match handles.lookup handle with
      | some expansion => .ok (some (expansion ++ name))
      | none => .error ⟨.unknownHandle, mark, some (.node, p.start)⟩

/-- Read a node.  Inside brackets no block can start, and only where the entries of a sequence may
stand as far left as what they belong to are they one. -/
def Item.read (handles : Handles) (block entries : Bool) (tokens : Tokens) :
    Except Fault (Item × Tokens) := do
  let first ← tokens.head
  match first.kind with
  | .reference name => return (.reference name first.start, tokens.tail)
  | _ =>
    let (p, tokens) ← Properties.read tokens
    let token ← tokens.head
    let tag ← p.fullTag handles
    let found (node : Node) : Except Fault (Item × Tokens) := .ok (.node p.anchor node, tokens)
    let other : Except Fault (Item × Tokens) :=
      if p.anchor = none ∧ tag = none then
        .error ⟨.missingNode, token.start,
          some (if block then .blockNode else .flowNode, p.start)⟩
      else found (.scalar { text := "", tag := tag, mark := p.start })
    match token.kind with
    | .scalar style text =>
      let tag := if tag = some "!" then none else tag
      return (.node p.anchor (.scalar ⟨text, style, tag, p.start⟩), tokens.tail)
    | .flowSequence => found (.sequence p.start)
    | .flowMapping => found (.mapping p.start)
    | .blockSequence => if block then found (.sequence p.start) else other
    | .blockMapping => if block then found (.mapping p.start) else other
    | .blockEntry => if entries then found (.sequence p.start) else other
    | _ => other

/-! ## The nodes of a mapping -/

/-- What comes next in a mapping. -/
inductive Turn where
  /-- The first key. -/
  | firstKey
  /-- A further key. -/
  | key
  /-- The value of a key. -/
  | value
  /-- The missing value of a key without a mark. -/
  | noValue
deriving DecidableEq, Repr

/-- What has been read of a mapping. -/
inductive Step where
  /-- A node, and what comes next. -/
  | item (item : Item) (turn : Turn) (rest : Tokens)
  /-- The end of the mapping. -/
  | closed (rest : Tokens)
deriving DecidableEq, Repr

/-- Read a node of a mapping. -/
def Step.read (handles : Handles) (block : Bool) (turn : Turn) (tokens : Tokens) :
    Except Fault Step :=
  (Item.read handles block block tokens).map fun (i, rest) => .item i turn rest

/-- Whether the key or value of a mapping in a block is missing before the given token. -/
def endsBlockItem (kind : TokenKind) : Bool :=
  kind == .key || kind == .value || kind == .blockEnd

/-- Read on in a mapping in a block that starts at a place. -/
def blockStep (handles : Handles) (start : Mark) (turn : Turn) (tokens : Tokens) :
    Except Fault Step := do
  let token ← tokens.head
  let content (turn : Turn) : Except Fault Step := do
    let next ← tokens.tail.head
    if endsBlockItem next.kind then return .item (.absent token.stop) turn tokens.tail
    else Step.read handles true turn tokens.tail
  match turn with
  | .value | .noValue =>
    if token.kind = .value then content .key else return .item (.absent token.start) .key tokens
  | .firstKey | .key =>
    if token.kind = .key then content .value
    else if token.kind = .blockEnd then return .closed tokens.tail
    else .error ⟨.missingKey, token.start, some (.blockMapping, start)⟩

/-- Whether the value of a mapping in braces is missing before the given token. -/
def endsFlowItem (kind : TokenKind) : Bool := kind == .flowEntry || kind == .flowMappingEnd

/-- Read a key of a mapping in braces. -/
def flowKey (handles : Handles) (tokens : Tokens) : Except Fault Step := do
  let token ← tokens.head
  if token.kind = .key then
    let next ← tokens.tail.head
    if next.kind = .value ∨ endsFlowItem next.kind then
      return .item (.absent next.start) .value tokens.tail
    else Step.read handles false .value tokens.tail
  else if token.kind = .flowMappingEnd then return .closed tokens.tail
  else Step.read handles false .noValue tokens

/-- Read on in a mapping in braces that starts at a place. -/
def flowStep (handles : Handles) (start : Mark) (turn : Turn) (tokens : Tokens) :
    Except Fault Step := do
  let token ← tokens.head
  match turn with
  | .firstKey => flowKey handles tokens
  | .key =>
    if token.kind = .flowMappingEnd then return .closed tokens.tail
    else if token.kind = .flowEntry then flowKey handles tokens.tail
    else .error ⟨.missingComma, token.start, some (.flowMapping, start)⟩
  | .value =>
    if token.kind = .value then
      let next ← tokens.tail.head
      if endsFlowItem next.kind then return .item (.absent next.start) .key tokens.tail
      else Step.read handles false .key tokens.tail
    else return .item (.absent token.start) .key tokens
  | .noValue => return .item (.absent token.start) .key tokens

/-- How the reading of a mapping ends. -/
inductive Outcome where
  /-- The mapping ends before the given tokens. -/
  | closed (rest : Tokens)
  /-- A sequence or a mapping stands inside. -/
  | nested
  /-- There is a fault. -/
  | fault (fault : Fault)
deriving DecidableEq, Repr

/-- Read the nodes of a mapping, keys and values in turn, at most `fuel` of them. -/
def readItems (step : Turn → Tokens → Except Fault Step) :
    Nat → Turn → Tokens → List Item × Outcome
  | 0, _, tokens => ([], .closed tokens)
  | fuel + 1, turn, tokens =>
    match step turn tokens with
    | .error fault => ([], .fault fault)
    | .ok (.closed rest) => ([], .closed rest)
    | .ok (.item item turn rest) =>
      if item.isCollection then ([item], .nested)
      else
        let (items, outcome) := readItems step fuel turn rest
        (item :: items, outcome)

/-- Read the nodes of a mapping from its first token on. -/
def readMapping (handles : Handles) (tokens : Tokens) : List Item × Outcome :=
  match tokens.head with
  | .error fault => ([], .fault fault)
  | .ok first =>
    let step := if first.kind = .blockMapping then blockStep else flowStep
    readItems (step handles first.start) (3 * tokens.length + 3) .firstKey tokens.tail

end Yaml
end CircuitRom
