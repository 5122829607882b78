import CircuitRom.Settings
import CircuitRom.Text.Hidden
import CircuitRom.Yaml
import CircuitRom.Yaml.Value

/-!
# Settings files

A settings file is a flat YAML mapping.  Each setting may be given once, and a null value leaves it
open.  The file is read from front to back: of several mistakes the first one counts.
-/

namespace CircuitRom
namespace Settings

/-! ## Faults -/

/-- What stands in place of what is expected. -/
inductive Found where
  /-- A scalar. -/
  | value (value : Yaml.Value)
  /-- A sequence. -/
  | sequence
  /-- A mapping. -/
  | map
deriving DecidableEq, Repr

/-- A whole number in words.  Numbers of more than 64 bits are marked as such. -/
def describeInteger (n : Int) : String :=
  let width :=
    if 18446744073709551616 ≤ n then " as u128"
    else if n < -9223372036854775808 then " as i128"
    else ""
  s!"integer `{n}`" ++ width

/-- What was found, in words. -/
def Found.description : Found → String
  | .value .null => "unit value"
  | .value (.boolean b) => s!"boolean `{b}`"
  | .value (.integer n) => describeInteger n
  | .value (.real x) => s!"floating point `{x.fullText}`"
  | .value (.infinity false) => "floating point `inf`"
  | .value (.infinity true) => "floating point `-inf`"
  | .value .notANumber => "floating point `NaN`"
  | .value (.text text) => "string " ++ Text.quoted text
  | .sequence => "sequence"
  | .map => "map"

/-- Why a settings file cannot be used.  The path is the name of a setting, if the fault is about
its value. -/
inductive Fault where
  /-- The file is no YAML text. -/
  | malformed (fault : Yaml.Fault)
  /-- The file holds more than one document. -/
  | severalDocuments
  /-- There is no setting of that name. -/
  | unknownField (name : String) (mark : Yaml.Mark)
  /-- A setting is given twice. -/
  | repeatedField (name : String) (mark : Yaml.Mark)
  /-- A node is of the wrong kind. -/
  | wrongKind (path : Option String) (found : Found) (expected : String) (mark : Yaml.Mark)
  /-- A scalar is not what its tag says. -/
  | wrongValue (path : Option String) (text expected : String) (mark : Yaml.Mark)
deriving DecidableEq, Repr

/-- The names of all settings. -/
def fieldNames : List String :=
  ["input", "output", "preprocessed", "label", "append_halt", "dump"]

/-- A path in front of a message. -/
def pathLabel (path : Option String) : String := (path.map (· ++ ": ")).getD ""

/-- The wording of a fault. -/
def Fault.message : Fault → String
  | .malformed fault => fault.message
  | .severalDocuments =>
    "deserializing from YAML containing more than one document is not supported"
  | .unknownField name mark =>
    let names := ", ".intercalate (fieldNames.map fun known => s!"`{known}`")
    s!"unknown field `{name}`, expected one of {names}" ++ mark.suffix
  | .repeatedField name mark => s!"duplicate field `{name}`" ++ mark.suffix
  | .wrongKind path found expected mark =>
    pathLabel path ++ s!"invalid type: {found.description}, expected {expected}" ++ mark.suffix
  | .wrongValue path text expected mark =>
    pathLabel path ++ s!"invalid value: string {Text.quoted text}, expected {expected}" ++
      mark.suffix

/-! ## Nodes -/

/-- The fault of a node that is not what is expected. -/
def unexpected (path : Option String) (node : Yaml.Node) (expected : String) : Fault :=
  match node with
  | .sequence mark => .wrongKind path .sequence expected mark
  | .mapping mark => .wrongKind path .map expected mark
  | .scalar s =>
    match Yaml.Value.ofScalar s with
    | .ok value => .wrongKind path (.value value) expected s.mark
    | .error type => .wrongValue path s.text type s.mark

/-- Whether a node leaves a setting open.  The fault of a scalar that is tagged to do so and does
not is one of the whole mapping, which starts at the given place. -/
def isOpen (mark : Yaml.Mark) : Yaml.Node → Except Fault Bool
  | .scalar s =>
    if s.style ≠ .plain then .ok false
    else
      match s.tag with
      | none => .ok (Yaml.Value.ofPlain s.text == .null)
      | some tag =>
        if tag ≠ Yaml.Value.tagOf "null" then .ok false
        else if Yaml.Value.isNullWord s.text then .ok true
        else .error (.wrongValue none s.text "null" mark)
  | _ => .ok false

/-- The text that a node stands for. -/
def readText (path : Option String) : Yaml.Node → Except Fault String
  | .scalar s => .ok s.text
  | node => .error (unexpected path node "a string")

/-- Whether the words for truth values count in a scalar: if it is plain, or a literal block that
is tagged as a truth value. -/
def maybeFlag (s : Yaml.Scalar) : Bool :=
  s.style == .plain || (s.style == .literal && s.tag == some (Yaml.Value.tagOf "bool"))

/-- The truth value that a node stands for. -/
def readFlag (path : Option String) (node : Yaml.Node) : Except Fault Bool :=
  let value? : Option Bool :=
    match node with
    | .scalar s => if maybeFlag s then Yaml.Value.boolean? s.text else none
    | _ => none
  match value? with
  | some b => .ok b
  | none => .error (unexpected path node "a boolean")

/-! ## Fields -/

/-- The name that a key gives. -/
def readName (key : Yaml.Field) : Except Fault String :=
  match key.node with
  | .scalar s =>
    if fieldNames.contains s.text then .ok s.text else .error (.unknownField s.text s.mark)
  | node => .error (unexpected none node "field identifier")

/-- The path of a value.  A key that stands elsewhere is not named. -/
def pathOf (key : Yaml.Field) (name : String) : String := if key.aliased then "?" else name

/-- Set one setting of a mapping that starts at a place. -/
def readField (mark : Yaml.Mark) (settings : Settings) (name path : String) (value : Yaml.Node) :
    Except Fault Settings := do
  let isOpen ← isOpen mark value
  let optional {α : Type} (read : Option String → Yaml.Node → Except Fault α) :
      Except Fault (Option α) :=
    if isOpen then .ok none else (read (some path) value).map some
  match name with
  | "input" => return { settings with input := ← optional readText }
  | "output" => return { settings with output := ← optional readText }
  | "preprocessed" => return { settings with preprocessed := ← optional readText }
  | "label" => return { settings with label := ← optional readText }
  | "append_halt" => return { settings with appendHalt := ← optional readFlag }
  | _ => return { settings with dump := ← optional readFlag }

/-- Check the name that a key gives, given the names before. -/
def readKey (mark : Yaml.Mark) (seen : List String) (key : Yaml.Field) : Except Fault String := do
  let name ← readName key
  if seen.contains name then .error (.repeatedField name mark) else return name

/-- Set the settings of a mapping one after the other, given the names of those set before. -/
def readFields (mark : Yaml.Mark) (seen : List String) (settings : Settings) :
    List Yaml.Field → Except Fault Settings
  | [] => .ok settings
  | [key] => (readKey mark seen key).map fun _ => settings
  | key :: value :: rest => do
    let name ← readKey mark seen key
    let settings ← settings.readField mark name (pathOf key name) value.node
    readFields mark (name :: seen) settings rest

/-! ## Files -/

/-- The settings that the content of a document gives. -/
def ofContent : Yaml.Content → Except Fault Settings
  | .empty => .ok {}
  | .scalar s =>
    if s.text = "" ∧ s.style = .plain then .ok {}
    else .error (unexpected none (.scalar s) "struct Config")
  | .sequence mark => .error (unexpected none (.sequence mark) "struct Config")
  | .fields mark fields => readFields mark [] {} fields

/-- The settings that a settings file gives.  What stands in front of a fault of the file is read
first. -/
def parse (text : String) : Except Fault Settings :=
  match Yaml.Document.parse text with
  | .error fault => .error (.malformed fault)
  | .ok document => do
    let settings ← ofContent document.content
    match document.ending with
    | .fault fault => .error (.malformed fault)
    | .more => .error .severalDocuments
    | _ => return settings

example : (parse "# a\ninput: x y # b\ndump: True\nlabel: 'it''s'\n").toOption =
    some { input := some "x y", dump := some true, label := some "it's" } := by decide +kernel
example : (parse "\x7binput: a, \"output\":'b', label: ~\x7d").toOption =
    some { input := some "a", output := some "b" } := by decide +kernel
example : (parse "input: a\n  b\n\n  c\noutput: \"d\\\n  e\\u00e9\"").toOption =
    some { input := some "a b\nc", output := some "deé" } := by decide +kernel
example : (parse "input: &a x\noutput: *a\nlabel: |\n  b\n  c\ndump: !!bool false").toOption =
    some { input := some "x", output := some "x", label := some "b\nc\n", dump := some false } := by
  decide +kernel
example : ["", "---\n", "# only\n", "\x7b\x7d", "--- \x7b\x7d # c\n...\n...\n"].map
    (fun text => (parse text).toOption) = List.replicate 5 (some {}) := by decide +kernel
example : ["~", "- a", "input: [a]", "input: a: b", "input: a\ninput: b", "dump: 1", "dump: 'true'",
    "input: 'a", "\tinput: a", "Input: a", "---\n---\n", "\x7binput:\x7d", "...\n",
    "input: *a"].all (fun text => (parse text).toOption.isNone) := by decide +kernel

end Settings
end CircuitRom
