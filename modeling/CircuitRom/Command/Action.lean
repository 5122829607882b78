import CircuitRom.Command.Files

/-!
# Actions

What a command does, step by step: it prints, it reads a file, it writes a file.  An action can be
carried out in any file system, which gives the text that is printed and the files afterwards.
-/

namespace CircuitRom

/-- An action that ends with a result. -/
inductive Action (α : Type) where
  /-- End with a result. -/
  | done (result : α)
  /-- Print a text and go on. -/
  | print (text : String) (next : Action α)
  /-- Read a file and go on with its text. -/
  | read (path : String) (next : Except FileFault String → Action α)
  /-- Write a file and go on. -/
  | write (path text : String) (next : Except FileFault Unit → Action α)

namespace Action

variable {α β : Type}

/-- Go on with another action after an action. -/
def bind (action : Action α) (f : α → Action β) : Action β :=
  match action with
  | done result => f result
  | print text next => print text (next.bind f)
  | read path next => read path fun text => (next text).bind f
  | write path text next => write path text fun written => (next written).bind f

instance : Monad Action where
  pure := done
  bind := bind

/-! ## Carrying out -/

/-- What an action has done. -/
structure Outcome (σ α : Type) where
  /-- The text that was printed. -/
  printed : String := ""
  /-- The files afterwards. -/
  files : σ
  /-- The result. -/
  result : α

/-- Carry out an action in a file system. -/
def runIn {σ : Type} (system : FileSystem σ) (files : σ) : Action α → Outcome σ α
  | done result => { files, result }
  | print text next =>
    let outcome := next.runIn system files
    { outcome with printed := text ++ outcome.printed }
  | read path next => (next (system.read files path)).runIn system files
  | write path text next =>
    let (written, files) := (system.write path text).outcome files
    (next written).runIn system files

/-- Carry out an action on files that are listed by their paths. -/
def runOn (files : Files) (action : Action α) : Outcome Files α := action.runIn Files.system files

/-- Carrying out two actions in a row. -/
theorem runIn_bind {σ : Type} (system : FileSystem σ) (files : σ) (action : Action α)
    (f : α → Action β) :
    (action.bind f).runIn system files =
      let first := action.runIn system files
      let second := (f first.result).runIn system first.files
      { second with printed := first.printed ++ second.printed } := by
  induction action generalizing files with
  | done result => simp [bind, runIn]
  | print text next ih => simp [bind, runIn, ih, String.append_assoc]
  | read path next ih => simp [bind, runIn, ih]
  | write path text next ih => simp [bind, runIn, ih]

end Action
end CircuitRom
