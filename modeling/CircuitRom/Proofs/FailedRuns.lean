import CircuitRom.Command
import CircuitRom.Proofs.Wiring

/-!
# What a failed run leaves behind

A step that fails leaves the files as they are, also if it was to write one.  A run that reads
first and writes once has the same property.  A run of the assembler reads the settings and the
source, but it can write twice: the listing, as soon as labels are resolved, and the blueprint
string at its end.  So a failed run leaves all files as they were, or it leaves the listing, and it
leaves the listing exactly if encoding fails after it or the blueprint string cannot be written.
All of this holds in any file system, whatever its paths mean and whichever files it lets be
written.
-/

namespace CircuitRom
namespace Command

variable {σ α β : Type} (system : FileSystem σ)

/-! ## What a step does to files -/

/-- What a step comes to in a file system: its result, and the files afterwards. -/
def effect (files : σ) (step : Step α) : Except Fault α × σ :=
  ((step.run.runIn system files).result, (step.run.runIn system files).files)

/-- Two steps in a row: the second is taken on the files that the first one leaves, and not at all
if the first one fails. -/
theorem effect_bind (files : σ) (step : Step α) (f : α → Step β) :
    effect system files (step >>= f) =
      match effect system files step with
      | (.error fault, files) => (.error fault, files)
      | (.ok a, files) => effect system files (f a) := by
  have hrun : (step >>= f).run = step.run.bind fun result =>
      match result with
      | .ok a => (f a).run
      | .error fault => .done (.error fault) := by
    rw [ExceptT.run_bind]
    refine congrArg step.run.bind (funext fun result => ?_)
    cases result <;> rfl
  simp only [effect, hrun, Action.runIn_bind]
  cases (step.run.runIn system files).result <;> rfl

@[simp] theorem effect_pure (files : σ) (a : α) :
    effect system files (pure a : Step α) = (.ok a, files) := rfl

@[simp] theorem effect_say (files : σ) (text : String) :
    effect system files (say text) = (.ok (), files) := rfl

@[simp] theorem effect_announce (files : σ) (number : Nat) (title : String) :
    effect system files (announce number title) = (.ok (), files) := rfl

@[simp] theorem effect_detail (files : σ) (text : String) :
    effect system files (detail text) = (.ok (), files) := rfl

@[simp] theorem effect_readFile (files : σ) (path : String) :
    effect system files (readFile path) =
      ((system.read files path).mapError (.unreadable path), files) := rfl

@[simp] theorem effect_require {ε : Type} (files : σ) (fault : ε → Fault) (x : Except ε α) :
    effect system files (require fault x) = (x.mapError fault, files) := rfl

@[simp] theorem effect_writeFile (files : σ) (path text : String) :
    effect system files (writeFile path text) =
      match (system.write path text).outcome files with
      | (.error fault, after) => (.error (.unwritable path fault), after)
      | (.ok _, after) => (.ok (), after) := by
  rw [effect, writeFile, ExceptT.run_mk, Action.runIn]
  rcases (system.write path text).outcome files with ⟨_ | _, after⟩ <;> rfl

/-- Reports are printed and touch no file. -/
@[simp] theorem effect_reports (files : σ) (reports : List Progress) :
    effect system files (reports.forM report) = (.ok (), files) := by
  induction reports with
  | nil => rfl
  | cons progress rest ih =>
    have hreport : effect system files (report progress) = (.ok (), files) := by
      cases progress <;> rfl
    rw [List.forM_eq_forM, List.forM_cons, effect_bind, hreport]
    exact ih

/-! ## The parts of a run -/

/-- The settings of a run, as the command line and the files give them. -/
def settingsOn (files : σ) (a : Arguments) : Except Fault Settings :=
  match a.config with
  | none => .ok (overrides a)
  | some path => do
    let text ← (system.read files path).mapError (.unreadable path)
    let settings ← (Settings.parse text).mapError (.settings path)
    return settings.overlay (overrides a)

/-- The program of the source file. -/
def programOn (files : σ) (settings : Settings) : Except Fault Program := do
  let input := settings.inputFile
  let code ← (system.read files input).mapError (.unreadable input)
  (preprocess code ⟨settings.haltsAtEnd⟩).mapError (.source input)

/-- The text that is written for the blueprint of a program. -/
def blueprintText (settings : Settings) (program : Program) : Except Fault String := do
  let encoded := Instruction.encodeAll program.instructions
  let signals ← encoded.mapError (.source settings.inputFile)
  let blueprint ← (Blueprint.rom settings.blueprintLabel signals).mapError .blueprint
  return BlueprintText.encode blueprint.json ++ "\n"

/-- Loading settings reads and does not write. -/
theorem effect_loadSettings (files : σ) (a : Arguments) :
    effect system files (loadSettings a) = (settingsOn system files a, files) := by
  rw [loadSettings, settingsOn]
  cases a.config with
  | none => rfl
  | some path =>
    simp only [effect_bind, effect_readFile, effect_require]
    cases (system.read files path).mapError (Fault.unreadable path) with
    | error fault => rfl
    | ok text =>
      simp only [bind, Except.bind]
      cases (Settings.parse text).mapError (Fault.settings path) <;> rfl

/-- Reading the program reads one file and writes none, whichever stage fails. -/
theorem effect_readProgram (files : σ) (settings : Settings) :
    effect system files (readProgram settings) = (programOn system files settings, files) := by
  simp only [readProgram, programOn, effect_bind, effect_announce, effect_say, effect_readFile]
  cases (system.read files settings.inputFile).mapError (Fault.unreadable settings.inputFile) with
  | error fault => rfl
  | ok code =>
    simp only [effect_reports, effect_require, bind, Except.bind, preprocess]
    cases (preprocessStaged code ⟨settings.haltsAtEnd⟩).outcome.mapError
        (Fault.source settings.inputFile) with
    | error fault => rfl
    | ok program =>
      dsimp only
      cases program.labels.unused <;> rfl

theorem effect_writeListing (files : σ) (path : String) (program : Program) :
    effect system files (writeListing path program) =
      match (system.write path (Instruction.listing program.instructions)).outcome files with
      | (.error fault, after) => (.error (.unwritable path fault), after)
      | (.ok _, after) => (.ok (), after) := by
  simp only [writeListing, effect_bind, effect_say, effect_writeFile]

/-- The one write of the blueprint string comes after every step that can fail. -/
theorem effect_writeBlueprint (files : σ) (settings : Settings) (program : Program) :
    effect system files (writeBlueprint settings program) =
      match blueprintText settings program with
      | .error fault => (.error fault, files)
      | .ok text =>
        match (system.write settings.outputFile text).outcome files with
        | (.error fault, after) => (.error (.unwritable settings.outputFile fault), after)
        | (.ok _, after) => (.ok (), after) := by
  simp only [writeBlueprint, blueprintText, effect_bind, effect_announce, effect_require]
  cases (Instruction.encodeAll program.instructions).mapError
      (Fault.source settings.inputFile) with
  | error fault => rfl
  | ok signals =>
    simp only [bind, Except.bind]
    cases (Blueprint.rom settings.blueprintLabel signals).mapError Fault.blueprint with
    | error fault => rfl
    | ok blueprint =>
      simp only [pure, Except.pure, effect_detail, effect_say, effect_writeFile]
      rcases (system.write settings.outputFile
        (BlueprintText.encode blueprint.json ++ "\n")).outcome files with ⟨fault | _, after⟩
      · rfl
      · cases settings.dumps <;> rfl

/-! ## Failed runs -/

/-- Only encoding can fail on the way to the text: a memory has room for any signals. -/
theorem blueprintText_eq_error_iff (settings : Settings) (program : Program) :
    (∃ fault, blueprintText settings program = .error fault) ↔
      ∃ fault, Instruction.encodeAll program.instructions = .error fault := by
  rw [blueprintText]
  cases Instruction.encodeAll program.instructions with
  | error fault => exact iff_of_true ⟨_, rfl⟩ ⟨_, rfl⟩
  | ok signals =>
    obtain ⟨blueprint, hrom, -⟩ := Blueprint.isMemory_rom settings.blueprintLabel signals
    simp [hrom, Except.mapError, bind, Except.bind, pure, Except.pure]

/-- The blueprint string of the program does not get written to the files: the program cannot be
encoded, or there is no place for the file. -/
def LacksBlueprint (files : σ) (settings : Settings) (program : Program) : Prop :=
  (∃ fault, Instruction.encodeAll program.instructions = .error fault) ∨
    ∃ text fault, blueprintText settings program = .ok text ∧
      (system.write settings.outputFile text).outcome files = (.error fault, files)

/-- Without a blueprint string the last part of the run fails and leaves the files alone. -/
theorem effect_writeBlueprint_of_lacks {files : σ} {settings : Settings} {program : Program}
    (h : LacksBlueprint system files settings program) :
    ∃ fault, effect system files (writeBlueprint settings program) = (.error fault, files) := by
  rw [LacksBlueprint, ← blueprintText_eq_error_iff settings] at h
  rw [effect_writeBlueprint]
  rcases h with ⟨fault, htext⟩ | ⟨text, fault, htext, hwrite⟩
  · simp [htext]
  · simp [htext, hwrite]

/-- Writing the blueprint string is all or nothing. -/
theorem lacksBlueprint_of_effect {files after : σ} {settings : Settings} {program : Program}
    {fault : Fault}
    (h : effect system files (writeBlueprint settings program) = (.error fault, after)) :
    after = files ∧ LacksBlueprint system files settings program := by
  rw [effect_writeBlueprint] at h
  cases htext : blueprintText settings program with
  | error fault' =>
    simp only [htext, Prod.mk.injEq] at h
    exact ⟨h.2.symm, .inl ((blueprintText_eq_error_iff settings program).1 ⟨fault', htext⟩)⟩
  | ok text =>
    rcases hwrite : (system.write settings.outputFile text).outcome files with ⟨fault' | _, left⟩
    · simp only [htext, hwrite, Prod.mk.injEq] at h
      have hleft : left = files := system.unchanged hwrite
      exact ⟨h.2.symm.trans hleft, .inr ⟨text, fault', htext, hleft ▸ hwrite⟩⟩
    · simp [htext, hwrite] at h

/-- The run writes the listing, and then it lacks the blueprint string. -/
def FailsAfterListing (a : Arguments) (files listed : σ) : Prop :=
  ∃ settings program path, settingsOn system files a = .ok settings ∧
    programOn system files settings = .ok program ∧ listingFile a settings = some path ∧
    (system.write path (Instruction.listing program.instructions)).outcome files =
      (.ok (), listed) ∧
    LacksBlueprint system listed settings program

/-- A run that fails leaves the files alone, unless it fails after the listing: it reads before it
writes, and each of the two writes is all or nothing. -/
theorem effect_compile_error {files after : σ} {a : Arguments} {fault : Fault}
    (h : effect system files (compile a) = (.error fault, after)) :
    after = files ∨ FailsAfterListing system a files after := by
  simp only [compile, effect_bind, effect_loadSettings, effect_say, effect_readProgram] at h
  cases hsettings : settingsOn system files a with
  | error fault' =>
    simp only [hsettings, Prod.mk.injEq] at h
    exact .inl h.2.symm
  | ok settings =>
    cases hprogram : programOn system files settings with
    | error fault' =>
      simp only [hsettings, hprogram, Prod.mk.injEq] at h
      exact .inl h.2.symm
    | ok program =>
      cases hlisting : listingFile a settings with
      | none =>
        simp only [hsettings, hprogram, hlisting, Option.forM, effect_pure] at h
        exact .inl (lacksBlueprint_of_effect system h).1
      | some path =>
        simp only [hsettings, hprogram, hlisting, Option.forM, effect_writeListing] at h
        rcases hwrite : (system.write path (Instruction.listing program.instructions)).outcome files
          with ⟨fault' | _, listed⟩
        · simp only [hwrite, Prod.mk.injEq] at h
          exact .inl (h.2.symm.trans (system.unchanged hwrite))
        · simp only [hwrite] at h
          obtain ⟨rfl, hlacks⟩ := lacksBlueprint_of_effect system h
          exact .inr ⟨settings, program, path, hsettings, hprogram, hlisting, hwrite, hlacks⟩

/-- Such a run does fail, and the listing stays. -/
theorem effect_compile_of_fails {files listed : σ} {a : Arguments}
    (h : FailsAfterListing system a files listed) :
    ∃ fault, effect system files (compile a) = (.error fault, listed) := by
  obtain ⟨settings, program, path, hsettings, hprogram, hlisting, hwrite, hlacks⟩ := h
  obtain ⟨fault, hfault⟩ := effect_writeBlueprint_of_lacks system hlacks
  refine ⟨fault, ?_⟩
  simp only [compile, effect_bind, effect_loadSettings, effect_say, effect_readProgram, hsettings,
    hprogram, hlisting, Option.forM, effect_writeListing, hwrite, hfault]

/-- The exit code is one exactly if the run fails. -/
theorem runIn_execute {line : List String} {a : Arguments} (hparse : Arguments.parse line = .ok a)
    (files : σ) :
    (((execute line).runIn system files).result = 1 ↔
        ∃ fault, (effect system files (run a)).1 = .error fault) ∧
      ((execute line).runIn system files).files = (effect system files (run a)).2 := by
  have hexecute : execute line = (run a).run.bind conclude := by
    rw [execute, hparse]
    rfl
  simp only [hexecute, Action.runIn_bind, effect]
  cases ((run a).run.runIn system files).result with
  | ok _ => simp [conclude, Action.runIn]
  | error fault => simp [conclude, Action.runIn]

/-- **A failed run leaves at most the listing.**  In any file system, a run of the assembler that
ends with exit code one leaves every file as it was, or it has written the listing and nothing else.
The second happens exactly if the listing is asked for and can be written, and after that the
program cannot be encoded or the file for its blueprint string cannot be written. -/
theorem failed_compile_leaves_at_most_listing {line : List String} {a : Arguments}
    (hparse : Arguments.parse line = .ok a) (hopcodes : a.opcodes = false)
    (himport : a.importFile = none) (files : σ) :
    (((execute line).runIn system files).result = 1 →
      ((execute line).runIn system files).files = files ∨
        FailsAfterListing system a files ((execute line).runIn system files).files) ∧
    ∀ listed, FailsAfterListing system a files listed →
      ((execute line).runIn system files).result = 1 ∧
        ((execute line).runIn system files).files = listed := by
  have hrun : run a = compile a := by
    rw [run, hopcodes, himport]
    rfl
  obtain ⟨hexit, hfiles⟩ := runIn_execute system hparse files
  rw [hrun] at hexit hfiles
  rw [hexit, hfiles]
  constructor
  · rintro ⟨fault, hfault⟩
    exact effect_compile_error system (Prod.ext hfault rfl)
  · intro listed hlisted
    obtain ⟨fault, hfault⟩ := effect_compile_of_fails system hlisted
    rw [hfault]
    exact ⟨⟨fault, rfl⟩, rfl⟩

/-- A directory with a source file whose only word is no mnemonic. -/
def wrongSource : Files := Dictionary.ofList [("a.fal", "FOO".toUTF8.data.toList)]

/-- The same directory with the listing of the source file. -/
def listedSource : Files := wrongSource.insert "a_preprocessed.fal" "FOO  \n".toUTF8.data.toList

theorem execute_wrongSource :
    ((execute ["-p", "a.fal"]).runOn wrongSource).result = 1 ∧
      ((execute ["-p", "a.fal"]).runOn wrongSource).files = listedSource ∧
      listedSource ≠ wrongSource := by
  decide +kernel

/-- The listing is asked for, and it stays although its only word cannot be encoded. -/
theorem wrongSource_leaves_listing :
    Arguments.parse ["-p", "a.fal"] =
      .ok { input := some "a.fal", preprocessed := some none } ∧
    ((execute ["-p", "a.fal"]).runOn wrongSource).result = 1 ∧
    ((execute ["-p", "a.fal"]).runOn wrongSource).files = listedSource ∧
    FailsAfterListing Files.system { input := some "a.fal", preprocessed := some none }
      wrongSource listedSource := by
  have hparse : Arguments.parse ["-p", "a.fal"] =
      .ok { input := some "a.fal", preprocessed := some none } := rfl
  obtain ⟨hexit, hfiles, hne⟩ := execute_wrongSource
  rw [Action.runOn] at hfiles
  have hleaves :=
    (failed_compile_leaves_at_most_listing Files.system hparse rfl rfl wrongSource).1 hexit
  rw [hfiles] at hleaves
  exact ⟨hparse, hexit, hfiles, hleaves.resolve_left hne⟩

/-- A failed run does not always leave all files as they were. -/
theorem failed_compile_can_leave_listing :
    ¬∀ (line : List String) (a : Arguments) (files : Files),
      Arguments.parse line = .ok a → a.opcodes = false → a.importFile = none →
      ((execute line).runOn files).result = 1 → ((execute line).runOn files).files = files := by
  intro hall
  obtain ⟨hexit, hfiles, hne⟩ := execute_wrongSource
  have hsame := hall ["-p", "a.fal"] { input := some "a.fal", preprocessed := some none }
    wrongSource rfl rfl rfl hexit
  exact hne (hfiles.symm.trans hsame)

end Command
end CircuitRom
