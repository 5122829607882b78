import CircuitRom.Proofs.Decimal
import CircuitRom.Proofs.LineShape
import CircuitRom.Proofs.Lookup
import CircuitRom.Proofs.Operands
import CircuitRom.Proofs.Resolution

/-!
# Addresses that reach the machine

Resolving labels puts an address into an instruction as its decimal digits.  Encoding looks at the
operand as it looks at any other: it could be a register, a number, or neither.  It is always the
number that was put there.  So a branch to a label carries the index of the instruction that the
label stands for, and never the mark of a register.
-/

namespace CircuitRom

/-! ## Reading an address -/

/-- The greatest number that a word can be. -/
def greatestWord : Nat := 2147483647

/-- No operand reads the token as a register.  An operand that may be a number reads it as `a`, or
finds that `a` is too large. -/
structure Token.ReadsAs (t : Token) (a : Nat) : Prop where
  register : t.register = .error (.atToken (.registerUnknown t.text) t)
  immediate : t.immediate =
    if a ≤ greatestWord then .ok (Int32.ofNat a) else .error (.atToken (.immediateRange t.text) t)
  either : ∀ reg imm, t.registerOrImmediate reg imm =
    if a ≤ greatestWord then .ok (imm.fill (Int32.ofNat a))
    else .error (.atToken (.immediateRange t.text) t)

/-- The decimal digits of an address are read back as this address. -/
theorem Token.readsAs_of_text {t : Token} {a : Nat} (h : t.text = toString a) : t.ReadsAs a := by
  have hregister : Register.ofName? t.text = none := by
    rw [h]
    exact Register.ofName?_toString a
  have hliteral : Literal.parse t.text =
      if a ≤ greatestWord then .ok (Int32.ofNat a) else .error .outOfRange := by
    rw [h]
    exact Literal.parse_toString a
  by_cases ha : a ≤ greatestWord
  · rw [if_pos ha] at hliteral
    exact ⟨by simp only [Token.register, hregister],
      by simp only [Token.immediate, hliteral, if_pos ha],
      fun reg imm => by simp only [registerOrImmediate, hregister, hliteral, if_pos ha]⟩
  · rw [if_neg ha] at hliteral
    exact ⟨by simp only [Token.register, hregister],
      by simp only [Token.immediate, hliteral, if_neg ha],
      fun reg imm => by simp only [registerOrImmediate, hregister, hliteral, if_neg ha]⟩

theorem toInt_ofNat_of_le {a : Nat} (h : a ≤ greatestWord) : (Int32.ofNat a).toInt = a :=
  Int32.toInt_ofNat_of_lt (by unfold greatestWord at h; omega)

/-! ## Branches -/

namespace Opcode

/-- The opcodes that jump. -/
def branches : List Opcode := [b, bz, bn]

/-- Every branch takes one operand, and that is where it branches to. -/
theorem operands_of_mem_branches {op : Opcode} (h : op ∈ branches) :
    op.encoding.operands = [OperandForm.sourceA] := by
  simp only [branches, List.mem_cons, List.not_mem_nil, or_false] at h
  rcases h with rfl | rfl | rfl <;> rfl

/-- A branch to a number has the number on the first source, and no mark of a register. -/
theorem find?_branch {op : Opcode} (h : op ∈ branches) (value : Int32) :
    let signals := op.encoding.control.merge (Template.fill [("signal-A", .filled)] value)
    signals.find? "signal-A" = some value ∧ signals.find? "signal-K" = none := by
  simp only [branches, List.mem_cons, List.not_mem_nil, or_false] at h
  rcases h with rfl | rfl | rfl <;> exact ⟨rfl, rfl⟩

end Opcode

/-- The one operand of a branch decides its signals. -/
theorem Instruction.signals_of_branch {i : Instruction} {op : Opcode} {signals : Signals}
    (hop : Opcode.ofName? i.opcode.text = some op) (hbranch : op ∈ Opcode.branches)
    (h : i.encode = .ok signals) {t : Token} (ht : t ∈ i.operands) (hword : t.isDelimiter = false) :
    ∃ more, t.registerOrImmediate [("signal-K", .fixed 1), ("signal-0", .filled)]
        [("signal-A", .filled)] = .ok more ∧
      signals = op.encoding.control.merge more := by
  have hforms := Opcode.operands_of_mem_branches hbranch
  have hcount : op.operands.length = 1 := congrArg List.length hforms
  simp only [encode, hop] at h
  obtain ⟨arguments, hextract, h⟩ := bind_eq_ok.1 h
  split at h
  · cases h
  · next hlength =>
    rw [not_not, hcount] at hlength
    obtain ⟨argument, rfl⟩ := List.length_eq_one_iff.1 hlength
    rw [hforms, List.zip_cons_cons, OperandForm.mergeSignals_cons] at h
    obtain ⟨more, hmore, h⟩ := bind_eq_ok.1 h
    cases h
    cases argument with
    | group bracket items => cases hmore
    | single u =>
      -- the words of the instruction are the one token of its argument
      have hwords := Argument.flatMap_tokens_of_extract hextract
      have hmem : t ∈ i.operands.filter (!·.isDelimiter) := by
        rw [List.mem_filter, hword]
        exact ⟨ht, rfl⟩
      rw [← hwords] at hmem
      have htu : t = u := by simpa [Argument.tokens] using hmem
      rw [htu]
      exact ⟨more, hmore, rfl⟩

/-! ## Operands that refer to labels -/

/-- The text is the name of a symbolic label, or a digit and the letter of a direction. -/
def Binding.IsReference (bs : List Binding) (text : String) : Prop :=
  text ∈ names bs ∨ ∃ digit direction, IsNumericReference text digit direction

/-- In a program that can be resolved, every operand that refers to a label means an address. -/
theorem Binding.exists_meaning {bs : List Binding} {index : Nat} {t : Token}
    (hkind : t.kind = .operand) (hresolvable : Resolvable bs index t)
    (href : IsReference bs t.text) : ∃ a, meaning? bs index t = some a := by
  rw [meaning?, if_neg (not_not.2 hkind)]
  cases haddress : address? bs t.text with
  | some a => exact ⟨a, rfl⟩
  | none =>
    have hname := address?_eq_none_iff.1 haddress
    obtain ⟨digit, direction, hnumeric⟩ := href.resolve_left hname
    obtain ⟨a, ha, hsees⟩ := hresolvable hkind hname digit direction hnumeric
    simp only [numericReference?_eq_some_iff.2 hnumeric, Option.bind_some]
    cases hnearest : direction.nearest? (addresses bs digit) index with
    | some a => exact ⟨a, rfl⟩
    | none =>
      rw [Direction.nearest?_eq_none_iff.1 hnearest a ha] at hsees
      cases hsees

/-- The lines of a source text with its macros expanded and its definitions applied. -/
def plainLines (code : String) : Except Diagnostic (List Line) := do
  let lines ← tokenize code
  let lines ← expandMacros lines
  Definition.substitute lines

/-- The lines without macros and definitions are what labels are resolved in. -/
theorem preprocess_eq_plainLines (code : String) (options : Options) :
    preprocess code options =
      plainLines code >>= fun lines => (Program.resolve lines).map (·.finish options) := by
  rw [preprocess_eq, plainLines]
  simp only [bind_assoc]
  rfl

/-- These lines have their labels in front, and their delimiters are marked as such. -/
theorem regular_plainLines {code : String} {lines : List Line} (h : plainLines code = .ok lines) :
    ∀ line ∈ lines, line.Regular ∧ line.WellMarked := by
  obtain ⟨source, hsource, h⟩ := bind_eq_ok.1 h
  obtain ⟨expanded, hexpanded, h⟩ := bind_eq_ok.1 h
  have hregular := regular_expandMacros hexpanded (regular_tokenize hsource)
  have hmarked := wellMarked_expandMacros hexpanded (wellMarked_tokenize hsource)
  intro line hline
  exact ⟨Definition.regular_substitute h hregular line hline,
    Definition.wellMarked_substituteFrom h (List.forall_mem_nil _) hmarked line hline⟩

namespace Program

/-- The words after a mnemonic are operands. -/
theorem kind_of_operand {lines : List Line}
    (hlines : ∀ line ∈ lines, line.Regular ∧ line.WellMarked)
    (hknown : ∀ line ∈ lines, ∀ t ∈ line, t.kind ≠ .unknown) {i : Instruction}
    (hi : i ∈ written lines) {op : Opcode} (hop : Opcode.ofName? i.opcode.text = some op) :
    ∀ t ∈ i.operands, t.isDelimiter = false → t.kind = .operand := by
  obtain ⟨line, hline, hinstruction⟩ := List.mem_filterMap.1 hi
  have hstatement : line.statement = i.opcode :: i.operands := by
    rw [Line.instruction?] at hinstruction
    split at hinstruction
    · cases hinstruction
    · next hcons =>
      cases hinstruction
      exact hcons
  have hsub : ∀ t ∈ i.opcode :: i.operands, t ∈ line := by
    intro t ht
    rw [← hstatement] at ht
    exact List.mem_of_mem_drop ht
  have hopcode := hsub i.opcode List.mem_cons_self
  rcases (hlines line hline).1 _ _ hstatement with hmark | hunknown | ⟨-, hrest⟩
  · -- a delimiter is no mnemonic
    have hnone : ∀ text ∈ delimiterTexts, Opcode.ofName? text = none := by decide
    have hdelimiter : i.opcode.isDelimiter = true := by rw [Token.isDelimiter, hmark]; rfl
    rw [hnone _ (((hlines line hline).2 _ hopcode).1 hdelimiter)] at hop
    cases hop
  · exact absurd hunknown (hknown line hline _ hopcode)
  · intro t ht hword
    have hfollows := hrest t ht
    have hunknown := hknown line hline t (hsub t (List.mem_cons_of_mem _ ht))
    rw [Token.isDelimiter, beq_eq_false_iff_ne] at hword
    revert hfollows
    cases hkind : t.kind <;> simp_all [Kind.followsOpcode]

end Program

/-! ## From references to signals -/

theorem Token.text_rewrite {meaning : Token → Option Nat} {t : Token} {a : Nat}
    (h : meaning t = some a) : (t.rewrite meaning).text = toString a := by
  rw [rewrite, h]

theorem Token.isDelimiter_rewrite (meaning : Token → Option Nat) (t : Token) :
    (t.rewrite meaning).isDelimiter = t.isDelimiter := by
  rw [rewrite]
  split <;> rfl

/-- A branch whose operand has been replaced by an address carries that address. -/
theorem Instruction.find?_of_branch {i : Instruction} {op : Opcode} {signals : Signals}
    {meaning : Token → Option Nat} (hop : Opcode.ofName? i.opcode.text = some op)
    (hbranch : op ∈ Opcode.branches) (h : (i.rewrite meaning).encode = .ok signals) {t : Token}
    (ht : t ∈ i.operands) (hword : t.isDelimiter = false) {a : Nat} (ha : meaning t = some a) :
    ∃ value, signals.find? "signal-A" = some value ∧ value.toInt = a ∧
      signals.find? "signal-K" = none := by
  have hmem : t.rewrite meaning ∈ (i.rewrite meaning).operands := List.mem_map_of_mem ht
  have hopcode : Opcode.ofName? (i.rewrite meaning).opcode.text = some op := hop
  rw [← Token.isDelimiter_rewrite meaning] at hword
  obtain ⟨more, hmore, rfl⟩ := signals_of_branch hopcode hbranch h hmem hword
  rw [(Token.readsAs_of_text (Token.text_rewrite ha)).either] at hmore
  split at hmore
  · next hrange =>
    cases hmore
    obtain ⟨hvalue, hmark⟩ := Opcode.find?_branch hbranch (Int32.ofNat a)
    exact ⟨_, hvalue, toInt_ofNat_of_le hrange, hmark⟩
  · cases hmore

namespace Program

/-- All that is added at the end is a halt, if it is asked for. -/
theorem instructions_finish (program : Program) (options : Options) :
    (program.finish options).instructions =
      program.instructions ++ if options.appendHalt then [Instruction.halt] else [] := by
  rw [finish]
  split
  · rfl
  · exact (List.append_nil _).symm

/-- **Addresses reach the machine.**  The instructions of a program are those that are written, with
what their operands mean in place of references.  Wherever that is an address, encoding reads this
address, or finds it too large, and never a register.  In an assembled program, every branch to a
symbolic label or to the nearest label of a digit therefore has on its first source the index that
the label is bound to, and no mark of a register. -/
theorem addresses_reach_signals {code : String} {options : Options} {program : Program}
    (h : preprocess code options = .ok program) :
    ∃ lines, plainLines code = .ok lines ∧
      program.instructions =
        (written lines).mapIdx (fun index i => i.rewrite (Binding.meaning? (bindings lines) index)) ++
          (if options.appendHalt then [Instruction.halt] else []) ∧
      (∀ index i, (written lines)[index]? = some i → ∀ t ∈ i.operands, ∀ a,
        Binding.meaning? (bindings lines) index t = some a →
          (t.rewrite (Binding.meaning? (bindings lines) index)).ReadsAs a) ∧
      ∀ assembly, assemble code options = .ok assembly →
        ∀ index i op, (written lines)[index]? = some i →
          Opcode.ofName? i.opcode.text = some op → op ∈ Opcode.branches →
          ∀ t ∈ i.operands, t.isDelimiter = false → Binding.IsReference (bindings lines) t.text →
            ∃ a signals value, Binding.meaning? (bindings lines) index t = some a ∧
              assembly.signals[index]? = some signals ∧
              signals.find? "signal-A" = some value ∧ value.toInt = a ∧
              signals.find? "signal-K" = none := by
  have hpre := h
  rw [preprocess_eq_plainLines] at h
  obtain ⟨lines, hlines, h⟩ := bind_eq_ok.1 h
  obtain ⟨resolved, hresolved, rfl⟩ := map_eq_ok.1 h
  have hdecides := decides_resolve lines
  rw [hresolved] at hdecides
  obtain ⟨⟨hknown, -, hresolvable⟩, hinstructions, -⟩ := hdecides.of_ok
  have hfinish := instructions_finish resolved options
  rw [hinstructions] at hfinish
  refine ⟨lines, hlines, hfinish, fun index i _ t _ a ha => ?_, ?_⟩
  · exact Token.readsAs_of_text (Token.text_rewrite ha)
  intro assembly hassembly index i op hi hop hbranch t ht hword href
  have hkind := kind_of_operand (regular_plainLines hlines) hknown
    (List.mem_of_getElem? hi) hop t ht hword
  obtain ⟨a, ha⟩ := Binding.exists_meaning hkind (hresolvable index i hi t ht) href
  -- the signals of the branch are those of the rewritten instruction
  obtain ⟨final, hfinal, hassembly⟩ := bind_eq_ok.1 hassembly
  rw [hpre] at hfinal
  cases hfinal
  obtain ⟨signals, hsignals, hassembly⟩ := bind_eq_ok.1 hassembly
  cases hassembly
  have hplace : (resolved.finish options).instructions[index]? =
      some (i.rewrite (Binding.meaning? (bindings lines) index)) := by
    obtain ⟨hindex, -⟩ := List.getElem?_eq_some_iff.1 hi
    rw [hfinish, List.getElem?_append_left (by rwa [List.length_mapIdx]), List.getElem?_mapIdx, hi]
    rfl
  have hrel := rel_getElem? (mapM_eq_ok.1 hsignals) index
  rw [hplace] at hrel
  generalize signals[index]? = found at hrel ⊢
  cases hrel with
  | some hencode =>
    obtain ⟨value, hvalue, hint, hmark⟩ :=
      Instruction.find?_of_branch hop hbranch hencode ht hword ha
    exact ⟨a, _, value, ha, rfl, hvalue, hint, hmark⟩

/-- A macro with a loop of its own, called between two labels. -/
def spinProgram : String :=
  "#macro spin 1\n0: bn 0b\nb $0\n#endm\nstart: spin done\nbz start\ndone: nop"

theorem spinProgram_branches_to_done :
    ∃ program lines assembly, preprocess spinProgram {} = .ok program ∧
      plainLines spinProgram = .ok lines ∧ assemble spinProgram {} = .ok assembly ∧
      ∃ i ∈ (written lines)[1]?, ∃ t ∈ i.operands, t.text = "done" ∧
        Binding.meaning? (bindings lines) 1 t = some 3 ∧
        (t.rewrite (Binding.meaning? (bindings lines) 1)).ReadsAs 3 ∧
        ∃ signals ∈ assembly.signals[1]?, ∃ value ∈ signals.find? "signal-A",
          value.toInt = 3 ∧ signals.find? "signal-K" = none := by
  have hspot : ∃ lines ∈ (plainLines spinProgram).toOption, ∃ i ∈ (written lines)[1]?,
      Opcode.ofName? i.opcode.text = some .b ∧ ∃ t ∈ i.operands, t.isDelimiter = false ∧
        t.text = "done" ∧ t.text ∈ Binding.names (bindings lines) ∧
        Binding.meaning? (bindings lines) 1 t = some 3 := by decide +kernel
  obtain ⟨program, hprogram⟩ : ∃ program, preprocess spinProgram {} = .ok program :=
    exists_eq_ok (by decide +kernel)
  obtain ⟨assembly, hassembly⟩ : ∃ assembly, assemble spinProgram {} = .ok assembly :=
    exists_eq_ok (by decide +kernel)
  obtain ⟨lines, hlines, -, hreads, hbranch⟩ := addresses_reach_signals hprogram
  obtain ⟨lines', hlines', i, hi, hop, t, ht, hword, htext, hname, hmeaning⟩ := hspot
  rw [hlines] at hlines'
  cases hlines'
  obtain ⟨a, signals, value, ha, hsignals, hvalue, hint, hmark⟩ :=
    hbranch assembly hassembly 1 i .b hi hop (by decide) t ht hword (.inl hname)
  cases hmeaning.symm.trans ha
  exact ⟨program, lines, assembly, hprogram, hlines, hassembly, i, hi, t, ht, htext, hmeaning,
    hreads 1 i hi t ht 3 hmeaning, signals, hsignals, value, hvalue, hint, hmark⟩

end Program
end CircuitRom
