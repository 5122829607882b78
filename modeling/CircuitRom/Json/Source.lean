import CircuitRom.Json.Numeral

/-!
# JSON texts

`Source.parse?` reads the grammar of a JSON text and leaves open what its numbers and strings stand
for: a number may be too large and a string may hold half of a surrogate pair.  Such a part is no
fault as long as nobody asks for its value.
-/

namespace CircuitRom

/-- A part of a JSON text. -/
inductive Source where
  /-- Nothing. -/
  | null
  /-- A truth value. -/
  | bool (value : Bool)
  /-- A written number. -/
  | number (numeral : Numeral)
  /-- A string, unless its escapes name no text. -/
  | string (text : Option String)
  /-- A sequence. -/
  | array (items : List Source)
  /-- Named parts, as they are written. -/
  | object (members : List (Option String × Source))
deriving Repr

namespace Source

/-! ## Strings -/

/-- A piece of a string: a character, or a 16-bit unit written by an escape. -/
inductive Piece where
  /-- A character. -/
  | char (c : Char)
  /-- A unit. -/
  | unit (n : Nat)
deriving DecidableEq, Repr

/-- The character that follows a backslash stands for this one. -/
def unescape? (c : Char) : Option Char :=
  if c = '"' ∨ c = '\\' ∨ c = '/' then some c
  else if c = 'b' then some (Char.ofNat 8)
  else if c = 'f' then some (Char.ofNat 12)
  else if c = 'n' then some '\n'
  else if c = 'r' then some '\r'
  else if c = 't' then some '\t'
  else none

/-- The pieces of a string up to its closing quote, and what follows the quote. -/
def readPieces? : List Char → Option (List Piece × List Char)
  | '"' :: rest => some ([], rest)
  | '\\' :: 'u' :: a :: b :: c :: d :: rest =>
    match Text.number? 16 [a, b, c, d] with
    | none => none
    | some n => (readPieces? rest).map fun (pieces, rest) => (.unit n :: pieces, rest)
  | '\\' :: c :: rest =>
    match unescape? c with
    | none => none
    | some c => (readPieces? rest).map fun (pieces, rest) => (.char c :: pieces, rest)
  | c :: rest =>
    if c.toNat < 32 then none
    else (readPieces? rest).map fun (pieces, rest) => (.char c :: pieces, rest)
  | [] => none

/-- Whether a unit is the first half of a surrogate pair. -/
def isHighHalf (n : Nat) : Bool := decide (0xD800 ≤ n ∧ n < 0xDC00)

/-- Whether a unit is the second half of a surrogate pair. -/
def isLowHalf (n : Nat) : Bool := decide (0xDC00 ≤ n ∧ n < 0xE000)

/-- The text of pieces; there is none if half of a surrogate pair stands alone. -/
def joinPieces? : List Piece → Option (List Char)
  | [] => some []
  | .char c :: rest => (joinPieces? rest).map (c :: ·)
  | .unit high :: .unit low :: rest =>
    if isHighHalf high && isLowHalf low then
      let c := Char.ofNat (0x10000 + (high - 0xD800) * 0x400 + (low - 0xDC00))
      (joinPieces? rest).map (c :: ·)
    else if isHighHalf high || isLowHalf high then none
    else (joinPieces? (.unit low :: rest)).map (Char.ofNat high :: ·)
  | .unit n :: rest =>
    if isHighHalf n || isLowHalf n then none
    else (joinPieces? rest).map (Char.ofNat n :: ·)

/-- Read a string whose opening quote has been read. -/
def readString? (cs : List Char) : Option (Option String × List Char) :=
  (readPieces? cs).map fun (pieces, rest) => ((joinPieces? pieces).map String.ofList, rest)

/-! ## Values -/

/-- Blanks that may stand between the parts of a text. -/
def isSpace (c : Char) : Bool := c == ' ' || c == '\t' || c == '\n' || c == '\r'

/-- Skip blanks. -/
def skip (cs : List Char) : List Char := cs.dropWhile isSpace

/-- Read the name of a member and the colon after it. -/
def readName? (cs : List Char) : Option (Option String × List Char) :=
  match skip cs with
  | '"' :: rest =>
    match readString? rest with
    | none => none
    | some (name, rest) =>
      match skip rest with
      | ':' :: rest => some (name, rest)
      | _ => none
  | _ => none

mutual

/-- Read a value.  The first argument bounds the number of nested calls. -/
def readValue? : Nat → List Char → Option (Source × List Char)
  | 0, _ => none
  | fuel + 1, cs =>
    match skip cs with
    | 'n' :: 'u' :: 'l' :: 'l' :: rest => some (.null, rest)
    | 't' :: 'r' :: 'u' :: 'e' :: rest => some (.bool true, rest)
    | 'f' :: 'a' :: 'l' :: 's' :: 'e' :: rest => some (.bool false, rest)
    | '"' :: rest => (readString? rest).map fun (text, rest) => (.string text, rest)
    | '[' :: rest =>
      match skip rest with
      | ']' :: rest => some (.array [], rest)
      | rest => (readItems? fuel rest).map fun (items, rest) => (.array items, rest)
    | '{' :: rest =>
      match skip rest with
      | '}' :: rest => some (.object [], rest)
      | rest => (readMembers? fuel rest).map fun (members, rest) => (.object members, rest)
    | rest => (Numeral.read? rest).map fun (numeral, rest) => (.number numeral, rest)

/-- Read the items of a sequence and its closing bracket. -/
def readItems? : Nat → List Char → Option (List Source × List Char)
  | 0, _ => none
  | fuel + 1, cs =>
    match readValue? fuel cs with
    | none => none
    | some (item, cs) =>
      match skip cs with
      | ']' :: rest => some ([item], rest)
      | ',' :: rest => (readItems? fuel rest).map fun (items, rest) => (item :: items, rest)
      | _ => none

/-- Read the members of an object and its closing brace. -/
def readMembers? : Nat → List Char → Option (List (Option String × Source) × List Char)
  | 0, _ => none
  | fuel + 1, cs =>
    match readName? cs with
    | none => none
    | some (name, cs) =>
      match readValue? fuel cs with
      | none => none
      | some (value, cs) =>
        match skip cs with
        | '}' :: rest => some ([(name, value)], rest)
        | ',' :: rest =>
          (readMembers? fuel rest).map fun (members, rest) => ((name, value) :: members, rest)
        | _ => none

end

/-- Read a whole text.  Every two nested calls read at least one character. -/
def parse? (text : String) : Option Source :=
  let cs := text.toList
  match readValue? (2 * cs.length + 2) cs with
  | some (source, rest) => if (skip rest).isEmpty then some source else none
  | none => none

/-! ## Meaning -/

mutual

/-- The value of a part whose sequences and objects are nested less than `depth` deep.  Members
are sorted by name, and of several with one name the last counts. -/
def value? (depth : Nat) : Source → Option Json
  | .null => some .null
  | .bool b => some (.bool b)
  | .number numeral => numeral.number?.map .number
  | .string text => text.map .string
  | .array items =>
    if depth ≤ 1 then none else (values? (depth - 1) items).map .array
  | .object members =>
    if depth ≤ 1 then none
    else (memberValues? (depth - 1) members).map fun members => .object (Json.sortMembers members)

/-- The values of the items of a sequence. -/
def values? (depth : Nat) : List Source → Option (List Json)
  | [] => some []
  | item :: rest =>
    match item.value? depth, values? depth rest with
    | some item, some rest => some (item :: rest)
    | _, _ => none

/-- The values of the members of an object. -/
def memberValues? (depth : Nat) : List (Option String × Source) → Option (List (String × Json))
  | [] => some []
  | (some name, value) :: rest =>
    match value.value? depth, memberValues? depth rest with
    | some value, some rest => some ((name, value) :: rest)
    | _, _ => none
  | (none, _) :: _ => none

end

/-- Sequences and objects nested this deep are refused. -/
def nestingLimit : Nat := 128

example : ((parse? "[1, \"\\u00e9\\ud83d\\ude00\", \x7b\"b\": 1, \"a\": 2, \"b\": 3\x7d]").bind
    (value? nestingLimit)).map Json.render = some "[1,\"é😀\",\x7b\"a\":2,\"b\":3\x7d]" := by
  decide +kernel
example : ((parse? "[\"\\ud800\"]").isSome, (parse? "[\"\\ud800\"]").bind (value? nestingLimit) |>.isSome) =
    (true, false) := by decide +kernel
example : ((parse? "[1,]").isSome, (parse? "[] x").isSome, (parse? "").isSome) =
    (false, false, false) := by decide +kernel

end Source
end CircuitRom
