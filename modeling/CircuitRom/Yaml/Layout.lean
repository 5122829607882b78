import CircuitRom.Yaml.Directive
import CircuitRom.Yaml.Scalar.Block
import CircuitRom.Yaml.Scalar.Plain
import CircuitRom.Yaml.Scalar.Quoted

/-!
# From text to tokens

A text is read token by token.  Two things have to be kept in mind on the way: the columns at which
blocks have been opened, and the places where a key may have started.  A key without a mark in front
is only known by the colon after it, which stands on the same line and not too far away.  Until then
no token from the start of the key on is given out, and with the colon the token for the key is put
in front.
-/

namespace CircuitRom
namespace Yaml

/-- A place where a key may have started. -/
structure Key where
  /-- The number of the token that stands there. -/
  number : Nat
  /-- Whether only a key can stand there. -/
  required : Bool
  /-- Where it is. -/
  mark : Mark
deriving DecidableEq, Repr

/-- The greatest distance in bytes between a key and its colon. -/
def Key.reach : Nat := 1024

/-- Whether a key is too far back to be followed by a colon at the given place. -/
def Key.isStale (key : Key) (mark : Mark) : Bool :=
  decide (key.mark.line < mark.line ∨ key.mark.bytes + reach < mark.bytes)

/-- A text while it is cut into tokens. -/
structure Layout where
  /-- What is left of the text. -/
  cursor : Cursor
  /-- Whether a key may start here. -/
  keyAllowed : Bool := true
  /-- The columns of the open blocks, the innermost first. -/
  indents : List Nat := []
  /-- The place where a key may have started. -/
  key : Option Key := none
  /-- The same outside of each open bracket. -/
  outer : List (Option Key) := []
  /-- How many tokens have been given out. -/
  taken : Nat := 0
  /-- The tokens read that have not been given out. -/
  queue : List Token := []
deriving DecidableEq, Repr

namespace Layout

/-- Whether brackets are open. -/
def flow (l : Layout) : Bool := !l.outer.isEmpty

/-- Where the rest of the text starts. -/
def mark (l : Layout) : Mark := l.cursor.mark

/-- The least column of what belongs to the innermost block. -/
def inner (l : Layout) : Nat := (l.indents.head?.map (· + 1)).getD 0

/-! ## Tokens -/

/-- Append a token that ends before the given rest of the text. -/
def push (l : Layout) (kind : TokenKind) (rest : Cursor) : Layout :=
  { l with cursor := rest, queue := l.queue ++ [⟨kind, l.mark, rest.mark⟩] }

/-- Append a token of one character. -/
def pushChar (l : Layout) (kind : TokenKind) : Layout := l.push kind l.cursor.next

/-- Insert a token that stands for no characters before the token of a number. -/
def insert (l : Layout) (number : Nat) (kind : TokenKind) (mark : Mark) : Layout :=
  { l with queue := l.queue.insertIdx (number - l.taken) ⟨kind, mark, mark⟩ }

/-- The number of the next token to be read. -/
def nextNumber (l : Layout) : Nat := l.taken + l.queue.length

/-! ## Blocks -/

/-- Close the blocks that start after a column, or all of them. -/
def closeBlocks (l : Layout) (col : Option Nat) : Layout :=
  if l.flow then l
  else
    let isOver (indent : Nat) : Bool := col.all (· < indent)
    let closed := (l.indents.takeWhile isOver).map fun _ => (⟨.blockEnd, l.mark, l.mark⟩ : Token)
    { l with indents := l.indents.dropWhile isOver, queue := l.queue ++ closed }

/-- Open a block before the token of a number, unless one is open at its column. -/
def openBlock (l : Layout) (number : Nat) (kind : TokenKind) (mark : Mark) : Layout :=
  if l.flow ∨ l.indents.head?.any (mark.col ≤ ·) then l
  else { l.insert number kind mark with indents := mark.col :: l.indents }

/-! ## Keys -/

/-- The fault of a key without a colon. -/
def keyFault (l : Layout) (key : Key) : Fault := l.cursor.fault .missingColon .key key.mark

/-- Give up a key if it fulfils a condition, which it must not if it is required. -/
def giveUp (l : Layout) (when : Key → Bool) (key : Option Key) : Except Fault (Option Key) :=
  match key with
  | some key =>
    if !when key then .ok (some key)
    else if key.required then .error (l.keyFault key)
    else .ok none
  | none => .ok none

/-- Give up the keys that are too far back. -/
def dropStale (l : Layout) : Except Fault Layout := do
  let stale (key : Key) : Bool := key.isStale l.mark
  let outer ← l.outer.reverse.mapM (l.giveUp stale)
  let key ← l.giveUp stale l.key
  return { l with key := key, outer := outer.reverse }

/-- Give up the key of the innermost brackets. -/
def dropKey (l : Layout) : Except Fault Layout :=
  (l.giveUp (fun _ => true) l.key).map fun key => { l with key := key }

/-- Note that a key may start here.  In a block the first token of a line is one. -/
def saveKey (l : Layout) : Except Fault Layout :=
  if !l.keyAllowed then .ok l
  else
    let key : Key := ⟨l.nextNumber, !l.flow && l.indents.head? == some l.mark.col, l.mark⟩
    l.dropKey.map fun l => { l with key := some key }

/-- Whether the next token may belong to a key. -/
def awaitsColon (l : Layout) : Bool :=
  (l.key :: l.outer).any fun key? => key?.any fun key => key.number == l.taken

/-! ## Between tokens -/

/-- Pass over blanks, line ends and comments from a place on.  In a block a key may start on a new
line, and a tab is no blank where a key may start. -/
def skipFrom (flow keyAllowed comment : Bool) (mark : Mark) : List Char → Bool × Cursor
  | [] => (keyAllowed, ⟨[], mark⟩)
  | c :: rest =>
    if isBreak c then skipFrom flow (keyAllowed || !flow) false (mark.after c) rest
    else if comment ∨ c = '#' then skipFrom flow keyAllowed true (mark.after c) rest
    else if c = ' ' ∨ (c = '\t' ∧ (flow ∨ !keyAllowed)) ∨ (c = '\ufeff' ∧ mark.col = 0) then
      skipFrom flow keyAllowed false (mark.after c) rest
    else (keyAllowed, ⟨c :: rest, mark⟩)

/-- Go to the next token. -/
def skip (l : Layout) : Layout :=
  let (keyAllowed, cursor) := skipFrom l.flow l.keyAllowed false l.mark l.cursor.rest
  { l with keyAllowed := keyAllowed, cursor := cursor }

/-! ## Reading a token -/

/-- The end of the text counts as the start of a line. -/
def readFinish (l : Layout) : Except Fault Layout := do
  let mark : Mark := if l.mark.col = 0 then l.mark else ⟨l.mark.line + 1, 0, 0⟩
  let l := { l with cursor := ⟨[], mark⟩ }
  let l ← (l.closeBlocks none).dropKey
  return { l with keyAllowed := false }.push .finish l.cursor

/-- Read a directive. -/
def readDirective (l : Layout) : Except Fault Layout := do
  let l ← (l.closeBlocks none).dropKey
  let (kind, stop, rest) ← Directive.read l.cursor
  return { l with
    keyAllowed := false, cursor := rest, queue := l.queue ++ [⟨kind, l.mark, stop⟩] }

/-- Read the mark that starts or ends a document. -/
def readMarker (l : Layout) (kind : TokenKind) : Except Fault Layout := do
  let l ← (l.closeBlocks none).dropKey
  return { l with keyAllowed := false }.push kind (l.cursor.drop 3)

/-- Read an opening bracket. -/
def readOpen (l : Layout) (kind : TokenKind) : Except Fault Layout := do
  let l ← l.saveKey
  return { l with keyAllowed := true, key := none, outer := l.key :: l.outer }.pushChar kind

/-- Read a closing bracket. -/
def readClose (l : Layout) (kind : TokenKind) : Except Fault Layout := do
  let l ← l.dropKey
  return { l with
    keyAllowed := false, key := l.outer.head?.getD l.key, outer := l.outer.tail }.pushChar kind

/-- Read a comma. -/
def readComma (l : Layout) : Except Fault Layout := do
  let l ← l.dropKey
  return { l with keyAllowed := true }.pushChar .flowEntry

/-- Read the mark of an entry of a sequence. -/
def readEntry (l : Layout) : Except Fault Layout := do
  if !l.flow ∧ !l.keyAllowed then .error ⟨.entryNotAllowed, l.mark, none⟩
  else
    let l ← (l.openBlock l.nextNumber .blockSequence l.mark).dropKey
    return { l with keyAllowed := true }.pushChar .blockEntry

/-- Read the mark of a key. -/
def readKeyMark (l : Layout) : Except Fault Layout := do
  if !l.flow ∧ !l.keyAllowed then .error ⟨.keyNotAllowed, l.mark, none⟩
  else
    let l ← (l.openBlock l.nextNumber .blockMapping l.mark).dropKey
    return { l with keyAllowed := !l.flow }.pushChar .key

/-- Read the colon before a value.  What stands before it is a key, if it may be one. -/
def readColon (l : Layout) : Except Fault Layout :=
  match l.key with
  | some key =>
    let l := (l.insert key.number .key key.mark).openBlock key.number .blockMapping key.mark
    .ok ({ l with key := none, keyAllowed := false }.pushChar .value)
  | none =>
    if !l.flow ∧ !l.keyAllowed then .error ⟨.valueNotAllowed, l.mark, none⟩
    else
      let l := l.openBlock l.nextNumber .blockMapping l.mark
      .ok ({ l with keyAllowed := !l.flow }.pushChar .value)

/-- Read what may be a key or stand in front of one. -/
def readWord (l : Layout) (read : Cursor → Except Fault (TokenKind × Cursor)) :
    Except Fault Layout := do
  let l ← l.saveKey
  let (kind, rest) ← read l.cursor
  return { l with keyAllowed := false }.push kind rest

/-- Read a plain scalar.  If a line has ended after it, a key may start. -/
def readPlain (l : Layout) : Except Fault Layout := do
  let l ← l.saveKey
  let s ← PlainScalar.read l.flow l.inner l.cursor
  return { l with keyAllowed := s.endsLine }.push (.scalar .plain (String.ofList s.text)) s.rest

/-- Read a block scalar. -/
def readBlock (l : Layout) (folded : Bool) : Except Fault Layout := do
  let l ← l.dropKey
  let (text, rest) ← BlockScalar.read folded l.inner l.cursor
  let style : Style := if folded then .folded else .literal
  return { l with keyAllowed := true }.push (.scalar style (String.ofList text)) rest

/-- Read a token that starts with the given character. -/
def readFrom (l : Layout) (c : Char) : Except Fault Layout :=
  let next? := (l.cursor.rest.drop 1).head?
  let alone := endsWord next?
  if c = '%' ∧ l.mark.col = 0 then l.readDirective
  else if l.cursor.isMarker '-' then l.readMarker .documentStart
  else if l.cursor.isMarker '.' then l.readMarker .documentEnd
  else if c = '[' then l.readOpen .flowSequence
  else if c = '{' then l.readOpen .flowMapping
  else if c = ']' then l.readClose .flowSequenceEnd
  else if c = '}' then l.readClose .flowMappingEnd
  else if c = ',' then l.readComma
  else if c = '-' ∧ alone then l.readEntry
  else if c = '?' ∧ (l.flow ∨ alone) then l.readKeyMark
  else if c = ':' ∧ (l.flow ∨ alone) then l.readColon
  else if c = '*' then
    l.readWord fun c => (readName .reference c).map fun (name, rest) => (.reference name, rest)
  else if c = '&' then
    l.readWord fun c => (readName .anchor c).map fun (name, rest) => (.anchor name, rest)
  else if c = '!' then
    l.readWord fun c => (Tag.readTag l.flow c).map fun (tag, rest) => (.tag tag.1 tag.2, rest)
  else if (c = '|' ∨ c = '>') ∧ !l.flow then l.readBlock (c == '>')
  else if c = '\'' ∨ c = '"' then
    l.readWord fun c =>
      (QuotedScalar.read c).map fun (text, rest) => (.scalar .quoted (String.ofList text), rest)
  else if "\t|>%@`".toList.contains c then
    .error (l.cursor.fault .badStart .token l.mark)
  else l.readPlain

/-- Read a token, and with it the tokens that come with the place where it stands. -/
def read (l : Layout) : Except Fault Layout := do
  let l ← l.skip.dropStale
  let l := l.closeBlocks (some l.mark.col)
  match l.cursor.head? with
  | none => l.readFinish
  | some c => l.readFrom c

/-! ## All tokens -/

/-- Give out the tokens of a text, in at most `fuel` steps. -/
def tokensFrom : Nat → Layout → Tokens
  | 0, l => .finish l.mark
  | fuel + 1, l =>
    match if l.queue.isEmpty then .ok l else l.dropStale with
    | .error fault => .fault fault
    | .ok l =>
      match l.queue with
      | [] =>
        match l.read with
        | .error fault => .fault fault
        | .ok l => tokensFrom fuel l
      | token :: rest =>
        if l.awaitsColon then
          match l.read with
          | .error fault => .fault fault
          | .ok l => tokensFrom fuel l
        else if token.kind = .finish then .finish token.start
        else .cons token (tokensFrom fuel { l with queue := rest, taken := l.taken + 1 })

/-- A bound for the number of steps: with a character come at most its token, the start and the end
of a block and the mark of a key, and each of them is read and given out. -/
def steps (cs : List Char) : Nat := 8 * (cs.length + 2)

end Layout

/-- The tokens of a text. -/
def Tokens.ofChars (cs : List Char) : Tokens :=
  Layout.tokensFrom (Layout.steps cs) { cursor := ⟨cs, {}⟩ }

/-- What the tokens are, as far as the first fault. -/
def Tokens.kinds : Tokens → List TokenKind
  | .cons token rest => token.kind :: rest.kinds
  | _ => []

example : (Tokens.ofChars "a: b\nc:\n - d".toList).kinds =
    [.blockMapping, .key, .scalar .plain "a", .value, .scalar .plain "b", .key,
      .scalar .plain "c", .value, .blockSequence, .blockEntry, .scalar .plain "d", .blockEnd,
      .blockEnd] := by decide +kernel
example : (Tokens.ofChars "--- !t &x\n\x7b 'a':1 , ? b \x7d".toList).kinds =
    [.documentStart, .tag "!" "t", .anchor "x", .flowMapping, .key, .scalar .quoted "a", .value,
      .scalar .plain "1", .flowEntry, .key, .scalar .plain "b", .flowMappingEnd] := by
  decide +kernel

end Yaml
end CircuitRom
