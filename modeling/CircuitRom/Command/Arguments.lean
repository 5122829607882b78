/-!
# Command line arguments

Options have a long name and some of them a short one.  Short options may stand together behind one
dash.  A value is given with `=`, directly behind a short name, or as the next argument; everything
after `--` is no option.  No option may be given twice.
-/

namespace CircuitRom

/-- What the command line asks for. -/
structure Arguments where
  /-- The source file. -/
  input : Option String := none
  /-- The file for the blueprint string. -/
  output : Option String := none
  /-- Whether the preprocessed listing is asked for, and the file for it if one is given. -/
  preprocessed : Option (Option String) := none
  /-- The settings file. -/
  config : Option String := none
  /-- Halt after the last instruction. -/
  appendHalt : Bool := false
  /-- The name of the blueprint. -/
  label : Option String := none
  /-- Show the instructions with their signals. -/
  dump : Bool := false
  /-- Show the table of opcodes and do nothing else. -/
  opcodes : Bool := false
  /-- Show the document of a blueprint string in this file and do nothing else. -/
  importFile : Option String := none
deriving DecidableEq, Repr

namespace Arguments

/-! ## Options -/

/-- An option. -/
inductive Key where
  | output | preprocessed | config | appendHalt | label | dump | opcodes | importFile
  | help | version
deriving DecidableEq, Repr

/-- Whether an option has a value. -/
inductive Arity where
  /-- It has none. -/
  | never
  /-- It always has one. -/
  | always
  /-- It has one if it is given with `=`. -/
  | attached
deriving DecidableEq, Repr

namespace Key

/-- Whether an option has a value. -/
def arity : Key → Arity
  | output | config | label | importFile => .always
  | preprocessed => .attached
  | appendHalt | dump | opcodes | help | version => .never

/-- The option with a long name. -/
def ofLong? (name : String) : Option Key :=
  match name with
  | "output" => some output
  | "preprocessed" => some preprocessed
  | "config" => some config
  | "append-halt" => some appendHalt
  | "label" => some label
  | "dump" => some dump
  | "opcodes" => some opcodes
  | "import" => some importFile
  | "help" => some help
  | "version" => some version
  | _ => none

/-- The option with a short name. -/
def ofShort? (name : Char) : Option Key :=
  match name with
  | 'o' => some output
  | 'p' => some preprocessed
  | 'c' => some config
  | 'd' => some dump
  | 'h' => some help
  | 'V' => some version
  | _ => none

end Key

/-! ## Reading -/

/-- Why there is nothing to run. -/
inductive Stop where
  /-- The arguments make no sense. -/
  | refused
  /-- Help is asked for. -/
  | help
  /-- The version is asked for. -/
  | version
deriving DecidableEq, Repr

/-- Set a text that has not been set before. -/
def setText (old : Option String) (value : Option String) : Except Stop (Option String) :=
  match old, value with
  | none, some value => .ok (some value)
  | _, _ => .error .refused

/-- Set a flag that has not been set before. -/
def setFlag (old : Bool) (value : Option String) : Except Stop Bool :=
  if old ∨ value.isSome then .error .refused else .ok true

/-- Give an option, with its value if it has one. -/
def give (a : Arguments) (key : Key) (value : Option String) : Except Stop Arguments :=
  match key with
  | .output => (setText a.output value).map ({ a with output := · })
  | .config => (setText a.config value).map ({ a with config := · })
  | .label => (setText a.label value).map ({ a with label := · })
  | .importFile => (setText a.importFile value).map ({ a with importFile := · })
  | .appendHalt => (setFlag a.appendHalt value).map ({ a with appendHalt := · })
  | .dump => (setFlag a.dump value).map ({ a with dump := · })
  | .opcodes => (setFlag a.opcodes value).map ({ a with opcodes := · })
  | .preprocessed =>
    if a.preprocessed.isSome then .error .refused else .ok { a with preprocessed := some value }
  | .help => .error (if value.isSome then .refused else .help)
  | .version => .error (if value.isSome then .refused else .version)

/-- Give an argument that is no option. -/
def givePositional (a : Arguments) (value : String) : Except Stop Arguments :=
  (setText a.input (some value)).map ({ a with input := · })

/-- Read options that stand together.  The option that is still without its value is given
back. -/
def readShort (a : Arguments) : List Char → Except Stop (Arguments × Option Key)
  | [] => .ok (a, none)
  | c :: rest =>
    match Key.ofShort? c with
    | none => .error .refused
    | some key =>
      let attached? : Option (Option String) :=
        match key.arity, rest with
        | .never, _ => none
        | _, '=' :: value => some (some (String.ofList value))
        | .attached, _ => none
        | .always, [] => some none
        | .always, value => some (some (String.ofList value))
      match attached? with
      | some none => .ok (a, some key)
      | some value => (a.give key value).map (·, none)
      | none =>
        match a.give key none with
        | .error e => .error e
        | .ok a => readShort a rest

/-- Read an option with a long name.  If it is still without its value, it is given back. -/
def readLong (a : Arguments) (text : List Char) : Except Stop (Arguments × Option Key) :=
  let name := text.takeWhile (· ≠ '=')
  let value? :=
    match text.dropWhile (· ≠ '=') with
    | [] => none
    | _ :: value => some (String.ofList value)
  match Key.ofLong? (String.ofList name) with
  | none => .error .refused
  | some key =>
    if key.arity = .always ∧ value?.isNone then .ok (a, some key)
    else (a.give key value?).map (·, none)

/-- Read the arguments that follow others.  `waiting` is the option whose value comes next. -/
def readFrom (a : Arguments) (waiting : Option Key) : List String → Except Stop Arguments
  | [] => if waiting.isSome then .error .refused else .ok a
  | argument :: rest =>
    let option (read : Except Stop (Arguments × Option Key)) : Except Stop Arguments :=
      if waiting.isSome then .error .refused
      else
        match read with
        | .error e => .error e
        | .ok (a, waiting) => readFrom a waiting rest
    match argument.toList with
    | ['-', '-'] => if waiting.isSome then .error .refused else rest.foldlM givePositional a
    | '-' :: '-' :: text => option (a.readLong text)
    | '-' :: c :: text => option (a.readShort (c :: text))
    | _ =>
      let given :=
        match waiting with
        | some key => a.give key (some argument)
        | none => a.givePositional argument
      match given with
      | .error e => .error e
      | .ok a => readFrom a none rest

/-- Read a command line. -/
def parse (arguments : List String) : Except Stop Arguments := readFrom {} none arguments

example : (parse ["-do", "r.txt", "-p", "a.fal"]).toOption =
    some { input := some "a.fal", output := some "r.txt", preprocessed := some none
           dump := true } := by decide
example : (parse ["--label=", "-pdo=x", "--", "-y"]).toOption =
    some { label := some "", preprocessed := some none, dump := true, output := some "x"
           input := some "-y" } := by decide
example : (parse ["-p=", "-c-"]).toOption =
    some { preprocessed := some (some ""), config := some "-" } := by decide
example : [["-x"], ["--dump=1"], ["-d", "-d"], ["-o"], ["-o", "--"], ["a", "b"], ["-o", "-d"], ["--=a"],
    ["--opcodes", "--bogus"], ["-pX"]].all (fun line => (parse line).toOption.isNone) := by decide

end Arguments
end CircuitRom
