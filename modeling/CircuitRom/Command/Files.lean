import CircuitRom.Dictionary
import CircuitRom.Path
import CircuitRom.Update

/-!
# Files

A command reads and writes files by their paths, and a `FileSystem` is whatever keeps them.  One of
them is `Files.system`, in which the files are listed by their paths as they are seen from a working
directory.
-/

namespace CircuitRom

/-- Why a file cannot be read or written. -/
inductive FileFault where
  /-- There is no such file, or no such directory on the way to it. -/
  | notFound
  /-- It is a directory. -/
  | isDirectory
  /-- Something on the way to it is no directory. -/
  | notDirectory
  /-- Its bytes are no text. -/
  | notText
  /-- Anything else, in the words of the system. -/
  | other (text : String)
deriving DecidableEq, Repr

/-- The wording of a fault. -/
def FileFault.message : FileFault → String
  | notFound => "No such file or directory (os error 2)"
  | isDirectory => "Is a directory (os error 21)"
  | notDirectory => "Not a directory (os error 20)"
  | notText => "stream did not contain valid UTF-8"
  | other text => text

/-- Something that keeps files.  The state is that of all files at one time. -/
structure FileSystem (σ : Type) where
  /-- The text in the file at a path. -/
  read : σ → String → Except FileFault String
  /-- Put a text into the file at a path. -/
  write : String → String → Update σ FileFault Unit
  /-- A write that fails leaves all files as they were. -/
  unchanged : ∀ {path text : String} {files after : σ} {fault : FileFault},
    (write path text).outcome files = (.error fault, after) → after = files

/-- Files by their paths, and what they hold.  A path starts from the working directory or, with a
slash in front, from the root.  A directory is there if a path leads through it, and one without
files has a path of its own that ends with a slash. -/
abbrev Files := Dictionary (List UInt8)

namespace Files

/-- The way to a place: the names from the working directory or from the root on, the last one
first. -/
abbrev Way := List (List Char)

/-- The path of a way. -/
def pathOf (way : Way) : String := String.ofList (Path.join way.reverse)

/-- The name that leads back. -/
def back : List Char := ['.', '.']

/-- The way to the root.  Its name is what stands before the first slash of a path: nothing. -/
def root : Way := [[]]

/-- Is the way that to the working directory or to one above it? -/
def leadsUp (way : Way) : Bool := way.all (· == back)

/-- Whether there is a directory.  The root is there, and so are the working directory and those
above it. -/
def hasDirectory (files : Files) (way : Way) : Bool :=
  leadsUp way || way == root ||
    files.keys.any fun key => ((pathOf way).toList ++ ['/']).isPrefixOf key.toList

/-- Check that there is a directory. -/
def checkDirectory (files : Files) (way : Way) : Except FileFault Unit :=
  if files.hasDirectory way then .ok ()
  else if files.contains (pathOf way) then .error .notDirectory
  else .error .notFound

/-- Take a step from a directory.  Nothing is above the root. -/
def step (way : Way) (part : List Char) : Way :=
  if Path.isIdle part then way
  else if part = back then
    if leadsUp way then back :: way else if way = root then root else way.tail
  else part :: way

/-- Follow names, each from a directory that is there. -/
def walk (files : Files) (way : Way) : List (List Char) → Except FileFault Way
  | [] => .ok way
  | part :: rest =>
    match files.checkDirectory way with
    | .error e => .error e
    | .ok _ => walk files (step way part) rest

/-- Where a path starts, and the names on it. -/
def start : List Char → Way × List (List Char)
  | '/' :: rest => (root, Path.split rest)
  | cs => ([], Path.split cs)

/-- Follow a path. -/
def locate (files : Files) (path : String) : Except FileFault Way :=
  let (way, names) := start path.toList
  if path.isEmpty then .error .notFound else files.walk way names

/-- Read a file. -/
def read (files : Files) (path : String) : Except FileFault String := do
  let way ← files.locate path
  match files.find? (pathOf way) with
  | some bytes =>
    match String.fromUTF8? ⟨bytes.toArray⟩ with
    | some text => return text
    | none => .error .notText
  | none => .error (if files.hasDirectory way then .isDirectory else .notFound)

/-- The place where a path puts a file: its directory has to be there, and no directory may stand
in its place. -/
def target (files : Files) (path : String) : Except FileFault Way := do
  let (way, names) := start path.toList
  match path.toList, names.reverse.dropWhile (· == []) with
  | [], _ => .error .notFound
  | _, [] => .error .isDirectory
  | cs, name :: before =>
    let directory ← files.walk way before.reverse
    files.checkDirectory directory
    let way := step directory name
    if Path.isIdle name ∨ name = back ∨ cs.getLast? = some '/' ∨ files.hasDirectory way then
      .error .isDirectory
    else return way

/-- Write a file. -/
def write (path text : String) : Update Files FileFault Unit := do
  match (← get).target path with
  | .error fault => throw fault
  | .ok way => modify (·.insert (pathOf way) text.toUTF8.data.toList)

/-- What a write comes to: the files change only if there is a place for the text. -/
theorem outcome_write (path text : String) (files : Files) :
    (write path text).outcome files =
      match files.target path with
      | .error fault => (.error fault, files)
      | .ok way => (.ok (), files.insert (pathOf way) text.toUTF8.data.toList) := by
  rw [write, Update.outcome_bind, Update.outcome_get]
  dsimp only
  cases files.target path with
  | error fault => exact Update.outcome_throw _ _
  | ok way => exact Update.outcome_modify _ _

-- A path from the root goes to its own place, and the root is above itself.
example : ((write "/../tmp/x" "").outcome (Dictionary.ofList [("/tmp/", [])])).2.keys =
    ["/tmp/", "/tmp/x"] := by
  decide +kernel

/-- The file system in which files are listed by their paths. -/
def system : FileSystem Files where
  read := read
  write := write
  unchanged {path text files after fault} h := by
    rw [outcome_write] at h
    cases htarget : files.target path with
    | error _ =>
      rw [htarget] at h
      exact (Prod.mk.inj h).2.symm
    | ok way =>
      rw [htarget] at h
      cases (Prod.mk.inj h).1

end Files
end CircuitRom
