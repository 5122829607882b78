import CircuitRom.Proofs.Relexing

/-!
# Assembling a listing

The listing of an assembled program is a program.  It declares no macro and no label, and it
defines nothing, so every stage hands its instructions on as they are, and they have the same
signals again.
-/

namespace CircuitRom

/-! ## Instructions that every stage keeps -/

namespace Instruction

/-- The opcode is no directive, and no operand is a label, a reference or unknown. -/
structure Bare (i : Instruction) : Prop where
  kind : i.opcode.kind = .opcode
  opcode : Text.IsPlainWord i.opcode.text
  operands : ∀ t ∈ i.operands, t.kind = .operand ∧ IsOperandWord t.text ∨ t.kind = .delimiter

theorem ReadAs.bare {i j : Instruction} (h : i.ReadAs j) (hi : i.Readable) : j.Bare := by
  obtain ⟨op, hop⟩ := hi.opcode
  refine ⟨h.opcode.1, ?_, fun u hu => ?_⟩
  · rw [h.opcode.2]
    exact Opcode.isPlainWord hop
  · obtain ⟨t, ht, ⟨htext, hmark⟩, hkind⟩ := exists_of_mem_right h.operands hu
    rcases hi.operands t ht with ⟨hdelimiter, -⟩ | ⟨-, hword⟩
    · rw [hdelimiter, eq_comm, Token.isDelimiter, beq_iff_eq] at hmark
      exact .inr hmark
    · rw [htext] at hword
      exact hkind.imp_left fun hoperand => ⟨hoperand, hword⟩

theorem ReadAs.alike {i j : Instruction} (h : i.ReadAs j) : i.Alike j :=
  ⟨h.opcode.2.symm, h.operands.imp fun _ _ htu => htu.1⟩

variable {i : Instruction}

/-- The opcode of a listed instruction is a plain word, and no directive is one. -/
theorem Bare.isDirective_eq_false (h : i.Bare) {name : String}
    (hname : (Text.foldCase name).all Text.isPlain = false) :
    i.opcode.isDirective name = false :=
  Text.sameLetters_eq_false h.opcode hname

theorem Bare.isLabel_eq_false (h : i.Bare) : i.opcode.kind.isLabel = false := by
  rw [h.kind]
  rfl

theorem Bare.find?_unknown (h : i.Bare) : i.line.find? (·.kind == .unknown) = none := by
  rw [List.find?_eq_none]
  refine List.forall_mem_cons.2 ⟨by rw [h.kind]; decide, fun t ht => ?_⟩
  rcases h.operands t ht with ⟨hkind, -⟩ | hkind
  · rw [hkind]
    decide
  · rw [hkind]
    decide

theorem Bare.labels_line (h : i.Bare) : i.line.labels = [] := by
  rw [line]
  cases i.operands with
  | nil => rfl
  | cons t rest =>
    rw [Line.labels, h.isLabel_eq_false]
    rfl

theorem Bare.statement_line (h : i.Bare) : i.line.statement = i.line := by
  have hcount : i.line.labelCount = 0 := by
    rw [line]
    cases i.operands with
    | nil => rfl
    | cons t rest =>
      rw [Line.labelCount, h.isLabel_eq_false]
      rfl
  rw [Line.statement, hcount]
  rfl

end Instruction

open Instruction

variable {instructions : List Instruction}

/-! ## Macros -/

/-- A listing declares no macros. -/
theorem MacroSearch.run_lines (h : ∀ i ∈ instructions, i.Bare) (index : Nat) :
    MacroSearch.run {} index (instructions.map line) = .ok {} := by
  induction instructions generalizing index with
  | nil => rfl
  | cons i rest ih =>
    obtain ⟨hi, hrest⟩ := List.forall_mem_cons.1 h
    have hstep : MacroSearch.step {} index i.line = .ok {} := by
      rw [line, step, hi.isDirective_eq_false (by decide), hi.isDirective_eq_false (by decide)]
      rfl
    rw [List.map_cons, run, hstep]
    exact ih hrest (index + 1)

/-- Without macros, expansion leaves a listing as it is. -/
theorem expandMacros_lines (h : ∀ i ∈ instructions, i.Bare) :
    expandMacros (instructions.map line) = .ok (instructions.map line) := by
  have hcollect : MacroTable.collect (instructions.map line) = .ok MacroTable.empty := by
    rw [MacroTable.collect, MacroSearch.run_lines h]
  have hnone : ∀ l ∈ instructions.map line, MacroTable.empty.call? l = none :=
    fun l _ => MacroTable.call?_of_isEmpty rfl l
  have hexpand : MacroTable.empty.expandWithin roundLimit (instructions.map line) =
      .ok (instructions.map line) :=
    MacroTable.settle_eq_ok_iff.2 ((MacroTable.inlines_iff_of_call?_eq_none hnone).2 rfl)
  have hcheck : MacroTable.empty.check = .ok () := rfl
  exact bind_eq_ok.2 ⟨_, hcollect, bind_eq_ok.2 ⟨(), hcheck, hexpand⟩⟩

/-! ## Definitions -/

theorem Definition.substitute_lines (h : ∀ i ∈ instructions, i.Bare) :
    Definition.substitute (instructions.map line) = .ok (instructions.map line) := by
  rw [substitute]
  induction instructions with
  | nil => rfl
  | cons i rest ih =>
    obtain ⟨hi, hrest⟩ := List.forall_mem_cons.1 h
    have hline : i.line.map (rename Dictionary.empty) = i.opcode :: i.operands := List.map_id' _
    have hdirective : i.opcode.isDirective "#def" = false := hi.isDirective_eq_false (by decide)
    rw [List.map_cons, substituteFrom, hline, ih hrest]
    simp only [hdirective]
    rfl

/-! ## Labels -/

namespace Program

/-- A listing has no labels, so every line is an instruction. -/
theorem layOutFrom_lines (h : ∀ i ∈ instructions, i.Bare) (address : Nat) :
    layOutFrom {} address (instructions.map line) = .ok ⟨instructions, {}⟩ := by
  induction instructions generalizing address with
  | nil => rfl
  | cons i rest ih =>
    obtain ⟨hi, hrest⟩ := List.forall_mem_cons.1 h
    rw [List.map_cons, layOutFrom, hi.find?_unknown, hi.labels_line, hi.statement_line]
    simp only [Labels.defineAll, line]
    rw [ih hrest]
    rfl

/-- An operand that names a register or writes a number stays as it is when there are no labels. -/
theorem resolveToken_eq {t : Token}
    (h : t.kind = .operand ∧ IsOperandWord t.text ∨ t.kind = .delimiter) (address : Nat) :
    resolveToken {} address t = .ok (t, {}) := by
  rw [resolveToken]
  rcases h with ⟨hkind, hword⟩ | hkind
  · have hsymbol : Labels.useSymbol {} t.text = none := rfl
    rw [if_neg (not_not.2 hkind), hsymbol, hword.numericReference?_eq_none]
  · rw [if_pos (by rw [hkind]; decide)]

/-- Operands are registers and numbers by now, and nothing is left to resolve. -/
theorem resolveTokens_eq {tokens : List Token}
    (h : ∀ t ∈ tokens, t.kind = .operand ∧ IsOperandWord t.text ∨ t.kind = .delimiter)
    (address : Nat) : resolveTokens {} address tokens = .ok (tokens, {}) := by
  induction tokens with
  | nil => rfl
  | cons t rest ih =>
    obtain ⟨ht, hrest⟩ := List.forall_mem_cons.1 h
    rw [resolveTokens, resolveToken_eq ht]
    simp only [ih hrest]
    rfl

theorem resolveFrom_eq (h : ∀ i ∈ instructions, i.Bare) (address : Nat) :
    resolveFrom {} address instructions = .ok ⟨instructions, {}⟩ := by
  induction instructions generalizing address with
  | nil => rfl
  | cons i rest ih =>
    obtain ⟨hi, hrest⟩ := List.forall_mem_cons.1 h
    rw [resolveFrom, resolveTokens_eq hi.operands]
    simp only [ih hrest]
    rfl

theorem resolve_lines (h : ∀ i ∈ instructions, i.Bare) :
    resolve (instructions.map line) = .ok ⟨instructions, {}⟩ := by
  rw [resolve, layOut, layOutFrom_lines h]
  exact resolveFrom_eq h 0

end Program

/-! ## The whole way -/

/-- The listing of instructions that can be read back is the program of these instructions, without
labels. -/
theorem preprocess_listing (h : ∀ i ∈ instructions, i.Readable) :
    ∃ again, List.Forall₂ ReadAs instructions again ∧
      preprocess (listing instructions) { appendHalt := false } = .ok ⟨again, {}⟩ := by
  obtain ⟨again, htokenize, hforall⟩ := tokenize_listing h
  have hbare : ∀ j ∈ again, j.Bare := by
    intro j hj
    obtain ⟨i, hi, hij⟩ := exists_of_mem_right hforall hj
    exact hij.bare (h i hi)
  refine ⟨again, hforall, ?_⟩
  rw [preprocess_eq]
  refine bind_eq_ok.2 ⟨_, htokenize, ?_⟩
  refine bind_eq_ok.2 ⟨_, expandMacros_lines hbare, ?_⟩
  refine bind_eq_ok.2 ⟨_, Definition.substitute_lines hbare, ?_⟩
  exact bind_eq_ok.2 ⟨_, Program.resolve_lines hbare, rfl⟩

namespace Instruction

theorem operandText_congr {operands operands' : List Token}
    (h : List.Forall₂ Token.Alike operands operands') :
    ∀ previous, operandText previous operands = operandText previous operands' := by
  induction h with
  | nil => exact fun _ => rfl
  | cons htu _ ih =>
    intro previous
    rw [operandText, operandText, htu.1, ih]

/-- An instruction is shown by its texts. -/
theorem Alike.text_eq {i j : Instruction} (h : i.Alike j) : i.text = j.text := by
  rw [text, text, h.1, operandText_congr h.2]

/-- The texts of the opcode and of the operands. -/
def texts (i : Instruction) : String × List String := (i.opcode.text, i.operands.map (·.text))

theorem Alike.texts_eq {i j : Instruction} (h : i.Alike j) : i.texts = j.texts := by
  rw [texts, texts, h.1, map_eq_map h.2 fun _ _ htu => htu.1]

end Instruction

/-- The listing of an assembled program assembles to the same program: it has the same signals, the
same texts, no labels to warn of, and the same listing. -/
theorem assemble_listing {code : String} {options : Options} {assembly : Assembly}
    (h : assemble code options = .ok assembly) :
    ∃ again, assemble (listing assembly.instructions) { appendHalt := false } = .ok again ∧
      again.signals = assembly.signals ∧
      again.instructions.map texts = assembly.instructions.map texts ∧
      again.warning = none ∧
      listing again.instructions = listing assembly.instructions := by
  obtain ⟨program, hprogram, h⟩ := bind_eq_ok.1 h
  obtain ⟨signals, hsignals, h⟩ := bind_eq_ok.1 h
  cases h
  have hencoded := mapM_eq_ok.1 hsignals
  -- what encodes can be read back, since its delimiters show in its texts
  have hreadable : ∀ i ∈ program.instructions, i.Readable := by
    intro i hi
    obtain ⟨s, -, hs⟩ := exists_of_mem_left hencoded hi
    exact readable_of_encode hs (wellMarked_preprocess hprogram i hi)
  obtain ⟨again, hread, hagain⟩ := preprocess_listing hreadable
  have halike := hread.imp fun _ _ hij => hij.alike
  obtain ⟨signals', hsame, rfl⟩ := (agree_encodeAll halike).exists_ok hsignals
  refine ⟨⟨again, signals, none⟩, ?_, rfl, ?_, rfl, ?_⟩
  · exact bind_eq_ok.2 ⟨_, hagain, bind_eq_ok.2 ⟨_, hsame, rfl⟩⟩
  · exact (map_eq_map halike fun _ _ hij => hij.texts_eq).symm
  · rw [listing, listing, map_eq_map halike fun _ _ hij => by rw [hij.text_eq]]

/-- A program with a macro, a definition, a label and a comment. -/
def sampleProgram : String :=
  "#macro twice 1\nadd $0, $0, $0\n#endm\n#def n 3\nloop: mov r1, n\ntwice r1 ; doubled\nb loop"

/-- A program with a label, a macro and a definition, its listing, and the same signals again. -/
theorem sampleProgram_listing :
    ∃ assembly again, assemble sampleProgram {} = .ok assembly ∧
      listing assembly.instructions = "mov   r1, 3\nadd   r1, r1, r1\nb     0\n" ∧
      assemble (listing assembly.instructions) {} = .ok again ∧
      again.signals = assembly.signals := by
  have hlisting : (assemble sampleProgram {}).toOption.map (fun a => listing a.instructions) =
      some "mov   r1, 3\nadd   r1, r1, r1\nb     0\n" := by decide +kernel
  cases h : assemble sampleProgram {} with
  | error e =>
    rw [h] at hlisting
    cases hlisting
  | ok assembly =>
    rw [h] at hlisting
    obtain ⟨again, hagain, hsignals, -⟩ := assemble_listing h
    exact ⟨assembly, again, rfl, Option.some.inj hlisting, hagain, hsignals⟩

end CircuitRom
