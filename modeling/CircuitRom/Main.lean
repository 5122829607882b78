import CircuitRom.Command

/-!
# The program

Carries out the actions of the command on the files of the machine.
-/

namespace CircuitRom
namespace Main

/-- What went wrong with a file. -/
def fileFault : IO.Error → FileFault
  | .noFileOrDirectory _ _ _ => .notFound
  | .inappropriateType _ 20 _ => .notDirectory
  | .inappropriateType _ 21 _ => .isDirectory
  | e => .other (toString e)

/-- Read a file of the machine. -/
def readFile (path : String) : IO (Except FileFault String) := do
  match ← (IO.FS.readBinFile path).toBaseIO with
  | .error e => return .error (fileFault e)
  | .ok bytes =>
    match String.fromUTF8? bytes with
    | none => return .error .notText
    | some text => return .ok text

/-- Write a file of the machine. -/
def writeFile (path text : String) : IO (Except FileFault Unit) := do
  match ← (IO.FS.writeBinFile path text.toUTF8).toBaseIO with
  | .error e => return .error (fileFault e)
  | .ok _ => return .ok ()

/-- Carry out an action. -/
def perform {α : Type} : Action α → IO α
  | .done result => return result
  | .print text next => do
    IO.print text
    perform next
  | .read path next => do perform (next (← readFile path))
  | .write path text next => do perform (next (← writeFile path text))

end Main
end CircuitRom

/-- Carry out a command line. -/
def main (arguments : List String) : IO UInt32 := do
  let code ← CircuitRom.Main.perform (CircuitRom.Command.execute arguments)
  return code.toUInt32
