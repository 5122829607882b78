/-!
# Paths of files

A path is a text with `/` between the names on the way to a file.  Empty names and the name `.`
lead nowhere, `..` leads back.
-/

namespace CircuitRom
namespace Path

/-- The text between the slashes. -/
def split : List Char → List (List Char)
  | [] => [[]]
  | c :: rest =>
    match split rest with
    | [] => [[c]]
    | part :: parts => if c = '/' then [] :: part :: parts else (c :: part) :: parts

/-- Put slashes between names. -/
def join : List (List Char) → List Char
  | [] => []
  | [part] => part
  | part :: rest => part ++ '/' :: join rest

/-- Whether a name leads nowhere. -/
def isIdle (part : List Char) : Bool := part == [] || part == ['.']

/-- The names of a path without those at its end that lead nowhere. -/
def dropIdleEnd (parts : List (List Char)) : List (List Char) :=
  (parts.reverse.dropWhile isIdle).reverse

/-- Where a path starts: at the root, at a `.` of its own, or nowhere in particular. -/
def lead (cs : List Char) : List Char :=
  match cs with
  | '/' :: _ => ['/']
  | ['.'] => ['.']
  | '.' :: '/' :: _ => ['.']
  | _ => []

/-- A path cut into the directory and the name in it.  Neither has a part at its end that leads
nowhere. -/
def cut (path : String) : Option (List Char × List Char) :=
  let cs := path.toList
  let start := lead cs
  let parts := dropIdleEnd (split (cs.drop start.length))
  match parts.reverse with
  | [] => none
  | name :: before => some (start ++ join (dropIdleEnd before.reverse), name)

/-- A name without its extension.  A name that starts with its only point has none, and the name
that leads back has no stem at all. -/
def stem? (name : List Char) : Option (List Char) :=
  if name = ['.', '.'] then none
  else
    let before := (name.reverse.dropWhile (· ≠ '.')).tail.reverse
    some (if before = [] then name else before)

/-- A name in a directory. -/
def inside (directory name : List Char) : List Char :=
  if directory = [] then name
  else if directory.getLast? = some '/' then directory ++ name
  else directory ++ '/' :: name

/-- Where the preprocessed listing of a source file goes: next to it. -/
def listing (input : String) : String :=
  let (directory, stem) :=
    match cut input with
    | none => ([], "input".toList)
    | some (directory, name) => (directory, (stem? name).getD "input".toList)
  String.ofList (inside directory (stem ++ "_preprocessed.fal".toList))

example : listing "input.fal" = "input_preprocessed.fal" := by decide
example : listing "src//./prog.old.fal/" = "src/prog.old_preprocessed.fal" := by decide
example : listing ".//x" = "./x_preprocessed.fal" := by decide
example : listing "/x" = "/x_preprocessed.fal" := by decide
example : listing ".hidden" = ".hidden_preprocessed.fal" := by decide
example : listing "a/.." = "a/input_preprocessed.fal" := by decide

end Path
end CircuitRom
