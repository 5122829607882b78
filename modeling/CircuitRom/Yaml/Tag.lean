import CircuitRom.Text.Digits
import CircuitRom.Yaml.Token

/-!
# Anchors and tags

An anchor names a node so that an alias can stand for it.  A tag says what a node is: it is written
in full between angle brackets, or as a handle that has been declared and a name.
-/

namespace CircuitRom
namespace Yaml

/-! ## Anchors -/

/-- Whether the name of an anchor ends before the given character. -/
def endsAnchor (next? : Option Char) : Bool :=
  endsWord next? || next?.any fun c => "?:,]\x7d%@`".toList.contains c

/-- Read the name of an anchor or alias after its mark. -/
def readName (context : Context) (c : Cursor) : Except Fault (String × Cursor) :=
  let (name, next) := c.next.takeWhile isNameChar
  if name ≠ [] ∧ endsAnchor next.head? then .ok (String.ofList name, next)
  else .error (next.fault .missingName context c.mark)

namespace Tag

/-! ## Names -/

/-- Whether a character may stand in the name of a tag.  Commas and brackets may only where the
tag is written in full or declared. -/
def isTagChar (full : Bool) (c : Char) : Bool :=
  isNameChar c || ";/?:@&=+$.!~*'()".toList.contains c || (full && ",[]".toList.contains c)

/-- How many bytes follow the first byte of a character. -/
def trailing? (byte : Nat) : Option Nat :=
  if byte < 0x80 then some 0
  else if byte / 0x20 = 0x06 then some 1
  else if byte / 0x10 = 0x0E then some 2
  else if byte / 0x08 = 0x1E then some 3
  else none

/-- The byte that two digits stand for. -/
def octet? (high low : Char) : Option Nat := Text.number? 16 [high, low]

/-- What is still to come of a character after the given byte of it. -/
def owedAfter (owed byte : Nat) : Except Problem Nat :=
  if owed = 0 then
    match trailing? byte with
    | none => .error .badLeadingOctet
    | some n => .ok n
  else if byte / 0x40 = 0x02 then .ok (owed - 1)
  else .error .badTrailingOctet

/-- Read the name of a tag after what has been read in reverse.  A character that may not stand in
it is written as its bytes; `owed` bytes of one are still to come. -/
def nameFrom (full : Bool) (context : Context) (start : Mark) (owed : Nat) (done : List Char)
    (mark : Mark) : List Char → Except Fault (List Char × Cursor)
  | '%' :: high :: low :: rest =>
    match octet? high low with
    | none => .error ⟨.badOctet, mark, some (context, start)⟩
    | some byte =>
      match owedAfter owed byte with
      | .error problem => .error ⟨problem, mark, some (context, start)⟩
      | .ok owed =>
        nameFrom full context start owed (Char.ofNat byte :: done)
          (((mark.after '%').after high).after low) rest
  | c :: rest =>
    if owed ≠ 0 ∨ c = '%' then .error ⟨.badOctet, mark, some (context, start)⟩
    else if isTagChar full c then nameFrom full context start 0 (c :: done) (mark.after c) rest
    else .ok (done.reverse, ⟨c :: rest, mark⟩)
  | [] =>
    if owed ≠ 0 then .error ⟨.badOctet, mark, some (context, start)⟩
    else .ok (done.reverse, ⟨[], mark⟩)

/-- Read the name of a tag that is not empty. -/
def readTagName (full : Bool) (context : Context) (start : Mark) (c : Cursor) :
    Except Fault (List Char × Cursor) := do
  let (name, next) ← nameFrom full context start 0 [] c.mark c.rest
  if next.rest.length = c.rest.length then .error (next.fault .missingTagName context start)
  else return (name, next)

/-! ## Handles -/

/-- Read a `!`, letters, and a second `!` if there is one. -/
def readHandle (context : Context) (start : Mark) (c : Cursor) :
    Except Fault (List Char × Cursor) :=
  if c.head? ≠ some '!' then .error (c.fault .missingBang context start)
  else
    let (letters, next) := c.next.takeWhile isNameChar
    if next.head? = some '!' then .ok ('!' :: letters ++ ['!'], next.next)
    else .ok ('!' :: letters, next)

/-- Whether a handle ends in a second `!`. -/
def isWholeHandle (handle : List Char) : Bool :=
  decide (1 < handle.length) && handle.getLast? == some '!'

/-! ## Tags -/

/-- Read a tag that is written in full. -/
def readFull (c : Cursor) : Except Fault ((String × String) × Cursor) := do
  let (name, next) ← readTagName true .tagName c.mark (c.drop 2)
  if next.head? ≠ some '>' then .error (next.fault .unclosedTag .tag c.mark)
  else return (("", String.ofList name), next.next)

/-- Read a tag that is written as a handle and a name.  A `!` alone is a tag without handle. -/
def readShort (c : Cursor) : Except Fault ((String × String) × Cursor) := do
  let (handle, next) ← readHandle .tag c.mark c
  if isWholeHandle handle then
    let (name, next) ← readTagName false .tagName c.mark next
    return ((String.ofList handle, String.ofList name), next)
  else
    let (name, next) ← nameFrom false .tagName c.mark 0 [] next.mark next.rest
    let name := handle.drop 1 ++ name
    return (if name = [] then ("", "!") else ("!", String.ofList name), next)

/-- Read a tag: its handle and its name.  A blank follows, or inside brackets a comma. -/
def readTag (flow : Bool) (c : Cursor) : Except Fault ((String × String) × Cursor) := do
  let (tag, next) ← if (c.rest.drop 1).head? = some '<' then readFull c else readShort c
  if endsWord next.head? ∨ (flow ∧ next.head? = some ',') then return (tag, next)
  else .error (next.fault .wordGoesOn .tag c.mark)

/-- The handle and the name of the tag that a text consists of. -/
def ofText? (text : String) : Option (String × String) :=
  match readTag false ⟨text.toList, {}⟩ with
  | .ok (tag, ⟨[], _⟩) => some tag
  | _ => none

example : ["!", "!a", "!!str", "!e!a%2Cb", "!<x:[y]>"].map ofText? =
    [some ("", "!"), some ("!", "a"), some ("!!", "str"), some ("!e!", "a,b"),
      some ("", "x:[y]")] := by decide
example : ["!!", "!a,b", "!<>", "!<a", "!a%", "!a%c3", "!a%80", "!a%c3%41", "!a%c3x"].map ofText? =
    List.replicate 9 none := by decide

end Tag
end Yaml
end CircuitRom
