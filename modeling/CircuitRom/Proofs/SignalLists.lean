import CircuitRom.Blueprint.Row
import CircuitRom.Proofs.FaultTokens
import CircuitRom.Proofs.Readings

/-!
# The signals of an instruction, in order

The rows of the opcode table are such that no signal name occurs twice among the control signals of
an opcode and all that its operands may set, and none of them is a signal that the rows of the memory
compare.  So nothing is ever overwritten while an instruction is encoded: its dictionary lists the
control signals and then, operand by operand, the filled templates.
-/

namespace CircuitRom

open Text

/-! ## Dictionaries in which no name is written twice -/

namespace Dictionary

variable {α : Type} {d : Dictionary α} {entries : List (String × α)}

/-- Entries whose keys are new are put at the end in their order. -/
theorem entries_insertAll :
    ∀ {d : Dictionary α}, (d.keys ++ entries.map Prod.fst).Nodup →
      (d.insertAll entries).entries = d.entries ++ entries := by
  induction entries with
  | nil => exact fun _ => (List.append_nil _).symm
  | cons entry rest ih =>
    intro d h
    rw [List.map_cons] at h
    have hnew : entry.1 ∉ d.keys := fun hmem =>
      List.disjoint_of_nodup_append h hmem List.mem_cons_self
    have hinsert := entries_insert_of_not_mem hnew entry.2
    have hkeys : (d.insert entry.1 entry.2).keys = d.keys ++ [entry.1] := by
      rw [keys_insert, if_neg hnew]
    rw [insertAll, List.foldl_cons, ← insertAll, ih, hinsert, List.append_assoc]
    · rfl
    · rw [hkeys, List.append_assoc]
      exact h

theorem keys_insertAll (h : (d.keys ++ entries.map Prod.fst).Nodup) :
    (d.insertAll entries).keys = d.keys ++ entries.map Prod.fst := by
  rw [keys, entries_insertAll h, List.map_append]
  rfl

theorem entries_ofList (h : (entries.map Prod.fst).Nodup) : (ofList entries).entries = entries :=
  entries_insertAll h

theorem merge_ofList (d : Dictionary α) (h : (entries.map Prod.fst).Nodup) :
    d.merge (ofList entries) = d.insertAll entries := by
  rw [merge, entries_ofList h]

theorem insertAll_append (d : Dictionary α) (first second : List (String × α)) :
    d.insertAll (first ++ second) = (d.insertAll first).insertAll second :=
  List.foldl_append

end Dictionary

/-! ## Filled templates -/

namespace Template

/-- The entries of a template for an operand of the given value. -/
def entries (t : Template) (value : Int32) : List (String × Int32) :=
  t.map fun entry => (entry.1, entry.2.value value)

@[simp] theorem map_fst_entries (t : Template) (value : Int32) :
    (t.entries value).map Prod.fst = t.keys := by
  simp [entries, keys]

end Template

namespace OperandForm

/-- The template for a register in the place of the operand. -/
def registerTemplate : OperandForm → Template
  | register reg | either reg _ | address reg _ => reg
  | immediate _ => []

/-- The template for a number in the place of the operand. -/
def numberTemplate : OperandForm → Template
  | immediate imm | either _ imm | address _ imm => imm
  | register _ => []

/-- The entries of an operand: those of its register, then those of its number. -/
def entries (form : OperandForm) : Operand → List (String × Int32)
  | .register r => form.registerTemplate.entries r.word
  | .number value => form.numberTemplate.entries value
  | .both base offset =>
    form.registerTemplate.entries base.word ++ form.numberTemplate.entries offset

theorem keys_eq (form : OperandForm) :
    form.keys = form.registerTemplate.keys ++ form.numberTemplate.keys := by
  cases form with
  | register reg => exact (List.append_nil _).symm
  | immediate imm => rfl
  | either reg imm => rfl
  | address reg imm => rfl

/-- An operand sets only signals of its form, and these in the order of the form. -/
theorem sublist_keys (form : OperandForm) (x : Operand) :
    ((form.entries x).map Prod.fst).Sublist form.keys := by
  rw [keys_eq]
  cases x with
  | register r =>
    rw [entries, Template.map_fst_entries]
    exact List.sublist_append_left _ _
  | number value =>
    rw [entries, Template.map_fst_entries]
    exact List.sublist_append_right _ _
  | both base offset =>
    rw [entries, List.map_append, Template.map_fst_entries, Template.map_fst_entries]

variable {form : OperandForm} {argument : Argument} {signals : Signals}

/-- A group of a register and a number has the signals of both. -/
theorem fill_merge_fill {reg imm : Template} (h : imm.keys.Nodup) (base offset : Int32) :
    (reg.fill base).merge (imm.fill offset) =
      Dictionary.ofList (reg.entries base ++ imm.entries offset) := by
  rw [← Template.map_fst_entries imm offset] at h
  exact (Dictionary.merge_ofList _ h).trans (Dictionary.insertAll_append _ _ _).symm

/-- The signals of an argument are those of the operand that it stands for. -/
theorem signals_eq_ok_iff (h : form.keys.Nodup) :
    form.signals argument = .ok signals ↔
      ∃ x, form.Reads argument x ∧ Dictionary.ofList (form.entries x) = signals := by
  constructor
  · intro hsignals
    cases argument with
    | single t =>
      cases form with
      | register reg =>
        obtain ⟨word, hword, rfl⟩ := map_eq_ok.1 hsignals
        obtain ⟨r, hr, rfl⟩ := Token.register_eq_ok_iff.1 hword
        exact ⟨_, .register hr, rfl⟩
      | immediate imm =>
        obtain ⟨value, hvalue, rfl⟩ := map_eq_ok.1 hsignals
        exact ⟨_, .immediate (Token.immediate_eq_ok_iff.1 hvalue), rfl⟩
      | either reg imm =>
        rcases Token.registerOrImmediate_eq_ok_iff.1 hsignals with ⟨r, hr, rfl⟩ | ⟨value, hv, rfl⟩
        · exact ⟨_, .eitherRegister hr, rfl⟩
        · exact ⟨_, .eitherNumber hv, rfl⟩
      | address reg imm => cases hsignals
    | group bracket items =>
      cases form with
      | address reg imm =>
        rcases items with _ | ⟨t, _ | ⟨u, _ | ⟨extra, more⟩⟩⟩
        · cases hsignals
        · rcases Token.registerOrImmediate_eq_ok_iff.1 hsignals with ⟨r, hr, rfl⟩ | ⟨value, hv, rfl⟩
          · exact ⟨_, .base hr, rfl⟩
          · exact ⟨_, .offset hv, rfl⟩
        · obtain ⟨word, hword, hsignals⟩ := bind_eq_ok.1 hsignals
          obtain ⟨value, hvalue, hsignals⟩ := bind_eq_ok.1 hsignals
          obtain ⟨r, hr, rfl⟩ := Token.register_eq_ok_iff.1 hword
          cases hsignals
          refine ⟨_, .baseOffset hr (Token.immediate_eq_ok_iff.1 hvalue), ?_⟩
          exact (fill_merge_fill (List.Nodup.of_append_right h) _ _).symm
        · cases hsignals
      | register reg => cases hsignals
      | immediate imm => cases hsignals
      | either reg imm => cases hsignals
  · rintro ⟨x, hx, rfl⟩
    cases hx with
    | register hr => exact map_eq_ok.2 ⟨_, Token.register_eq_ok_iff.2 ⟨_, hr, rfl⟩, rfl⟩
    | immediate hv => exact map_eq_ok.2 ⟨_, Token.immediate_eq_ok_iff.2 hv, rfl⟩
    | eitherRegister hr => exact Token.registerOrImmediate_eq_ok_iff.2 (.inl ⟨_, hr, rfl⟩)
    | eitherNumber hv => exact Token.registerOrImmediate_eq_ok_iff.2 (.inr ⟨_, hv, rfl⟩)
    | base hr => exact Token.registerOrImmediate_eq_ok_iff.2 (.inl ⟨_, hr, rfl⟩)
    | offset hv => exact Token.registerOrImmediate_eq_ok_iff.2 (.inr ⟨_, hv, rfl⟩)
    | baseOffset hr hv =>
      refine bind_eq_ok.2 ⟨_, Token.register_eq_ok_iff.2 ⟨_, hr, rfl⟩, ?_⟩
      refine bind_eq_ok.2 ⟨_, Token.immediate_eq_ok_iff.2 hv, ?_⟩
      exact congrArg Except.ok (fill_merge_fill (List.Nodup.of_append_right h) _ _)

/-- The entries of operands, one after the other. -/
def entriesOf (forms : List OperandForm) (xs : List Operand) : List (String × Int32) :=
  (List.zipWith entries forms xs).flatten

/-- The keys of the operands appear in the order of their forms. -/
theorem sublist_flatMap_keys (forms : List OperandForm) :
    ∀ xs : List Operand,
      ((entriesOf forms xs).map Prod.fst).Sublist (forms.flatMap keys) := by
  induction forms with
  | nil => exact fun _ => List.Sublist.refl _
  | cons form forms ih =>
    intro xs
    cases xs with
    | nil => exact List.nil_sublist _
    | cons x xs =>
      rw [entriesOf, List.zipWith_cons_cons, List.flatten_cons, List.map_append,
        List.flatMap_cons]
      exact (form.sublist_keys x).append (ih xs)

/-- Operands can be merged exactly if each can be read in its form, and then their signals follow
each other. -/
theorem mergeSignals_eq_ok_iff {forms : List OperandForm} :
    ∀ {arguments : List Argument} {start result : Signals}, arguments.length = forms.length →
      (start.keys ++ forms.flatMap keys).Nodup →
      (mergeSignals start (arguments.zip forms) = .ok result ↔
        ∃ xs, ReadsAll forms arguments xs ∧
          result.entries = start.entries ++ entriesOf forms xs) := by
  induction forms with
  | nil =>
    intro arguments start result hlength _
    obtain rfl := List.length_eq_zero_iff.1 hlength
    constructor
    · intro h
      cases h
      exact ⟨[], .nil, (List.append_nil _).symm⟩
    · rintro ⟨xs, hxs, hentries⟩
      cases hxs
      rw [entriesOf, List.zipWith_nil_left, List.flatten_nil, List.append_nil] at hentries
      rw [Dictionary.ext_entries hentries]
      rfl
  | cons form forms ih =>
    intro arguments start result hlength hnodup
    obtain ⟨argument, arguments, rfl⟩ :=
      List.exists_cons_of_length_pos (Nat.lt_of_lt_of_eq (Nat.succ_pos _) hlength.symm)
    have hform : form.keys.Nodup :=
      List.Nodup.of_append_left (List.Nodup.of_append_right hnodup)
    -- what is written for the first argument is new, and it leaves the rest new
    have hnew : ∀ x, (start.keys ++ (form.entries x).map Prod.fst ++ forms.flatMap keys).Nodup := by
      intro x
      rw [List.append_assoc]
      exact hnodup.sublist
        ((List.Sublist.refl _).append ((form.sublist_keys x).append (List.Sublist.refl _)))
    have hstep : ∀ x, mergeSignals (start.merge (.ofList (form.entries x))) (arguments.zip forms) =
        .ok result ↔ ∃ xs, ReadsAll forms arguments xs ∧
          result.entries = start.entries ++ entriesOf (form :: forms) (x :: xs) := by
      intro x
      have hfirst := List.Nodup.of_append_left (hnew x)
      rw [Dictionary.merge_ofList _ (List.Nodup.of_append_right hfirst),
        ih (Nat.succ.inj hlength) (by rw [Dictionary.keys_insertAll hfirst]; exact hnew x),
        Dictionary.entries_insertAll hfirst]
      simp only [entriesOf, List.zipWith_cons_cons, List.flatten_cons, List.append_assoc]
    rw [List.zip_cons_cons, mergeSignals_cons, bind_eq_ok]
    constructor
    · rintro ⟨more, hmore, hrest⟩
      obtain ⟨x, hx, rfl⟩ := (signals_eq_ok_iff hform).1 hmore
      obtain ⟨xs, hxs, hresult⟩ := (hstep x).1 hrest
      exact ⟨x :: xs, .cons hx hxs, hresult⟩
    · rintro ⟨xs, hxs, hresult⟩
      cases hxs with
      | cons hx hxs =>
        exact ⟨_, (signals_eq_ok_iff hform).2 ⟨_, hx, rfl⟩, (hstep _).2 ⟨_, hxs, hresult⟩⟩

end OperandForm

/-! ## The table -/

namespace Opcode

/-- No signal name occurs twice in a row of the table. -/
theorem nodup_keys (op : Opcode) :
    (op.control.map Prod.fst ++ op.operands.flatMap OperandForm.keys).Nodup := by
  cases op <;> decide

/-- No row of the table has a signal that carries an address in the memory. -/
theorem address_not_mem_keys (op : Opcode) :
    ∀ name ∈ [Row.rowAddress, Row.wantedAddress],
      name ∉ op.control.map Prod.fst ++ op.operands.flatMap OperandForm.keys := by
  cases op <;> decide

/-- The entries of an operation with its operands. -/
def entries (op : Opcode) (operands : List Operand) : List (String × Int32) :=
  op.control ++ OperandForm.entriesOf op.operands operands

/-- The signals of an instruction are listed in the order of its opcode's table row. -/
theorem sublist_row (op : Opcode) (operands : List Operand) :
    ((op.entries operands).map Prod.fst).Sublist
      (op.control.map Prod.fst ++ op.operands.flatMap OperandForm.keys) := by
  rw [entries, List.map_append]
  exact (List.Sublist.refl _).append (OperandForm.sublist_flatMap_keys _ _)

theorem entries_control (op : Opcode) : op.encoding.control.entries = op.control :=
  Dictionary.entries_ofList (List.Nodup.of_append_left op.nodup_keys)

/-- The same for the operands of an opcode, whose control signals come first. -/
theorem mergeSignals_eq_ok_iff {op : Opcode} {arguments : List Argument} {signals : Signals}
    (h : arguments.length = op.operands.length) :
    OperandForm.mergeSignals op.encoding.control (arguments.zip op.encoding.operands) =
        .ok signals ↔
      ∃ operands, OperandForm.ReadsAll op.operands arguments operands ∧
        signals.entries = op.entries operands := by
  have hnodup := op.nodup_keys
  rw [← entries_control] at hnodup
  rw [show op.encoding.operands = op.operands from rfl,
    OperandForm.mergeSignals_eq_ok_iff h hnodup, entries_control]
  rfl

end Opcode

/-! ## Instructions -/

/-- An argument fits a form if it stands for an operand in its place. -/
def OperandForm.Fits (form : OperandForm) (argument : Argument) : Prop :=
  ∃ x, form.Reads argument x

theorem OperandForm.exists_readsAll_iff {forms : List OperandForm} :
    ∀ {arguments : List Argument},
      (∃ xs, ReadsAll forms arguments xs) ↔ List.Forall₂ Fits forms arguments := by
  induction forms with
  | nil =>
    intro arguments
    constructor
    · rintro ⟨xs, hxs⟩
      cases hxs
      exact .nil
    · intro h
      cases h
      exact ⟨[], .nil⟩
  | cons form forms ih =>
    intro arguments
    constructor
    · rintro ⟨xs, hxs⟩
      cases hxs with
      | cons hx hxs => exact .cons ⟨_, hx⟩ (ih.1 ⟨_, hxs⟩)
    · intro h
      cases h with
      | cons hx hrest =>
        obtain ⟨x, hx⟩ := hx
        obtain ⟨xs, hxs⟩ := ih.2 hrest
        exact ⟨x :: xs, .cons hx hxs⟩

namespace Instruction

/-- An instruction is encoded exactly if it can be read, and its signals are listed by its reading.
-/
theorem encode_eq_ok_iff {i : Instruction} {signals : Signals} :
    i.encode = .ok signals ↔
      ∃ op operands, i.Reads op operands ∧ signals.entries = op.entries operands := by
  rw [encode]
  constructor
  · intro h
    split at h
    · cases h
    · next op hop =>
      obtain ⟨arguments, hextract, h⟩ := bind_eq_ok.1 h
      split at h
      · cases h
      · next hlength =>
        obtain ⟨operands, hreads, hentries⟩ :=
          (Opcode.mergeSignals_eq_ok_iff (not_not.1 hlength)).1 h
        exact ⟨op, operands, ⟨Opcode.ofName?_eq_some_iff.1 hop, arguments, hextract, hreads⟩,
          hentries⟩
  · rintro ⟨op, operands, ⟨hop, arguments, hextract, hreads⟩, hentries⟩
    simp only [Opcode.ofName?_eq_some_iff.2 hop]
    refine bind_eq_ok.2 ⟨arguments, hextract, ?_⟩
    rw [if_neg (not_not.2 hreads.length_eq)]
    exact (Opcode.mergeSignals_eq_ok_iff hreads.length_eq).2 ⟨operands, hreads, hentries⟩

/-- An instruction that says something encodes. -/
theorem exists_encode_eq_ok_iff {i : Instruction} :
    (∃ signals, i.encode = .ok signals) ↔ ∃ op operands, i.Reads op operands := by
  constructor
  · rintro ⟨signals, h⟩
    obtain ⟨op, operands, hreads, -⟩ := encode_eq_ok_iff.1 h
    exact ⟨op, operands, hreads⟩
  · rintro ⟨op, operands, hreads⟩
    have hnodup := op.nodup_keys.sublist (op.sublist_row operands)
    exact ⟨⟨op.entries operands, hnodup⟩, encode_eq_ok_iff.2 ⟨op, operands, hreads, rfl⟩⟩

/-- **What encoding accepts and puts out.**  An instruction encodes exactly if its opcode is a
mnemonic up to the case of letters, its operands can be grouped into as many arguments as the
mnemonic has forms, and each argument fits its form.  Its dictionary then lists the control signals
and after them the entries of its operands, in order.  All their names are different, so that none of
them has been overwritten, and none is a signal that the rows of the memory compare.  An instruction
that does not encode is at fault at its opcode or at one of its operands. -/
theorem encode_accepts_and_lists (i : Instruction) :
    ((∃ signals, i.encode = .ok signals) ↔
      ∃ (op : Opcode) (arguments : List Argument), sameLetters op.name i.opcode.text = true ∧
        Argument.extract i.operands = .ok arguments ∧
        List.Forall₂ OperandForm.Fits op.operands arguments) ∧
    (∀ signals, i.encode = .ok signals →
      ∃ (op : Opcode) (arguments : List Argument) (operands : List Operand),
        sameLetters op.name i.opcode.text = true ∧
        Argument.extract i.operands = .ok arguments ∧
        OperandForm.ReadsAll op.operands arguments operands ∧
        signals.entries =
          op.control ++ (List.zipWith OperandForm.entries op.operands operands).flatten ∧
        ((op.control ++ (List.zipWith OperandForm.entries op.operands operands).flatten).map
          Prod.fst).Nodup ∧
        Row.rowAddress ∉ signals.keys ∧ Row.wantedAddress ∉ signals.keys) ∧
    ∀ fault, i.encode = .error fault →
      ∃ t ∈ i.opcode :: i.operands, fault = .atToken fault.cause t := by
  refine ⟨?_, fun signals h => ?_, fun fault h => ?_⟩
  · rw [exists_encode_eq_ok_iff]
    constructor
    · rintro ⟨op, operands, hop, arguments, hextract, hreads⟩
      exact ⟨op, arguments, hop, hextract, OperandForm.exists_readsAll_iff.1 ⟨operands, hreads⟩⟩
    · rintro ⟨op, arguments, hop, hextract, hfits⟩
      obtain ⟨operands, hreads⟩ := OperandForm.exists_readsAll_iff.2 hfits
      exact ⟨op, operands, hop, arguments, hextract, hreads⟩
  · obtain ⟨op, operands, ⟨hop, arguments, hextract, hreads⟩, hentries⟩ := encode_eq_ok_iff.1 h
    have hsub := op.sublist_row operands
    have hnot : ∀ name ∈ [Row.rowAddress, Row.wantedAddress], name ∉ signals.keys := by
      intro name hname hmem
      rw [Dictionary.keys, hentries] at hmem
      exact op.address_not_mem_keys name hname (hsub.subset hmem)
    exact ⟨op, arguments, operands, hop, hextract, hreads, hentries, op.nodup_keys.sublist hsub,
      hnot _ (by simp), hnot _ (by simp)⟩
  · have houtcome := i.outcome_encode
    rw [h] at houtcome
    exact houtcome.of_error

end Instruction
end CircuitRom
