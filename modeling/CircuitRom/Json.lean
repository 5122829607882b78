import CircuitRom.Number.Shortest

/-!
# JSON values

Values of the data format in which blueprints are kept, and their compact text.
-/

namespace CircuitRom

/-- A number of a JSON text: whole numbers stay whole. -/
inductive Number where
  /-- A whole number. -/
  | int (value : Int)
  /-- A floating point number. -/
  | real (value : Binary64)
deriving DecidableEq, Repr

/-- The text of a number. -/
def Number.text : Number → String
  | .int value => toString value
  | .real value => value.text

/-- The number as a floating point number. -/
def Number.toBinary64 : Number → Binary64
  | .int value => .ofInt value
  | .real value => value

/-- A JSON value.  Objects keep the order of their members. -/
inductive Json where
  /-- Nothing. -/
  | null
  /-- A truth value. -/
  | bool (value : Bool)
  /-- A number. -/
  | number (value : Number)
  /-- A text. -/
  | string (text : String)
  /-- A sequence. -/
  | array (items : List Json)
  /-- Named values. -/
  | object (members : List (String × Json))
deriving Repr

namespace Json

/-- A whole number. -/
def int (value : Int) : Json := .number (.int value)

/-- A natural number. -/
def nat (value : Nat) : Json := .number (.int value)

/-- The part of an object that holds an optional member: nothing if there is no value. -/
def optional (name : String) (value? : Option Json) : List (String × Json) :=
  match value? with
  | none => []
  | some value => [(name, value)]

/-! ## Text -/

/-- The text of one character inside quotes.  Quotes, backslashes and control characters are
escaped, everything else stands for itself. -/
def escape (c : Char) : List Char :=
  if c = '"' then ['\\', '"']
  else if c = '\\' then ['\\', '\\']
  else if c = '\n' then ['\\', 'n']
  else if c = '\r' then ['\\', 'r']
  else if c = '\t' then ['\\', 't']
  else if c.toNat = 8 then ['\\', 'b']
  else if c.toNat = 12 then ['\\', 'f']
  else if c.toNat < 32 then
    '\\' :: 'u' :: '0' :: '0' :: Nat.digitChar (c.toNat / 16) :: [Nat.digitChar (c.toNat % 16)]
  else [c]

/-- A text in quotes. -/
def quote (text : String) : String :=
  String.ofList ('"' :: text.toList.flatMap escape ++ ['"'])

mutual

/-- The text of a value, without blanks. -/
def render : Json → String
  | .null => "null"
  | .bool true => "true"
  | .bool false => "false"
  | .number value => value.text
  | .string text => quote text
  | .array items => "[" ++ ",".intercalate (renderItems items) ++ "]"
  | .object members => "\x7b" ++ ",".intercalate (renderMembers members) ++ "\x7d"

/-- The texts of the items of a sequence. -/
def renderItems : List Json → List String
  | [] => []
  | item :: rest => item.render :: renderItems rest

/-- The texts of the members of an object. -/
def renderMembers : List (String × Json) → List String
  | [] => []
  | (name, value) :: rest => (quote name ++ ":" ++ value.render) :: renderMembers rest

end

/-! ## Sorted members -/

/-- Put a member into sorted members; a member of the same name gives way. -/
def insertSorted (name : String) (value : Json) : List (String × Json) → List (String × Json)
  | [] => [(name, value)]
  | (other, old) :: rest =>
    if name < other then (name, value) :: (other, old) :: rest
    else if name = other then (name, value) :: rest
    else (other, old) :: insertSorted name value rest

/-- Members sorted by name; of several with one name the last remains. -/
def sortMembers (members : List (String × Json)) : List (String × Json) :=
  members.foldl (fun (sorted) (member) => insertSorted member.1 member.2 sorted) []

example : quote "a\"\\\n\x01é" = "\"a\\\"\\\\\\n\\u0001é\"" := by decide
example : render (.object [("a", .array [.null, .bool true]), ("b", .int (-3))]) =
    "\x7b\"a\":[null,true],\"b\":-3\x7d" := by decide

end Json
end CircuitRom
