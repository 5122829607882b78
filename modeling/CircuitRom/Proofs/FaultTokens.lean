import CircuitRom.Proofs.Agreement

/-!
# Where encoding finds its faults

Grouping operands keeps every token with the argument that it belongs to, and an argument that does
not fit is at fault at one of its own tokens.  So a fault of an instruction is found at its opcode
or at one of its operands.
-/

namespace CircuitRom

/-- The fault was found at one of the tokens. -/
def Diagnostic.FoundAt (tokens : List Token) (d : Diagnostic) : Prop :=
  ∃ t ∈ tokens, d = .atToken d.cause t

namespace Diagnostic

variable {tokens tokens' : List Token}

theorem foundAt_atToken {t : Token} (h : t ∈ tokens) (cause : Cause) :
    (atToken cause t).FoundAt tokens :=
  ⟨t, h, rfl⟩

theorem FoundAt.mono {d : Diagnostic} (h : d.FoundAt tokens) (hsub : tokens ⊆ tokens') :
    d.FoundAt tokens' := by
  obtain ⟨t, ht, hd⟩ := h
  exact ⟨t, hsub ht, hd⟩

end Diagnostic

open Diagnostic

/-! ## Arguments -/

namespace Argument

/-- The tokens of an argument, with the bracket that opens it. -/
def allTokens : Argument → List Token
  | single t => [t]
  | group bracket items => bracket :: items

/-- The bracket that is open, if one is, with the tokens read since. -/
def openTokens : Option (Token × List Token) → List Token
  | none => []
  | some (bracket, items) => bracket :: items

/-- The tokens of an open bracket belong to the operands, so a fault at one of them is found there
too. -/
theorem outcome_extractFrom {tokens operands : List Token} (h : operands ⊆ tokens) :
    ∀ {state : Option (Token × List Token)}, openTokens state ⊆ tokens →
      Outcome (FoundAt tokens) (fun arguments => ∀ a ∈ arguments, a.allTokens ⊆ tokens)
        (extractFrom state operands) := by
  induction operands with
  | nil =>
    intro state hstate
    cases state with
    | none => exact .ok (List.forall_mem_nil _)
    | some group => exact .error (foundAt_atToken (hstate List.mem_cons_self) _)
  | cons t rest ih =>
    intro state hstate
    obtain ⟨ht, hrest⟩ := List.cons_subset.1 h
    cases state with
    | none =>
      rw [extractFrom]
      split
      · refine (ih hrest hstate).map fun more hmore => List.forall_mem_cons.2 ⟨?_, hmore⟩
        exact List.cons_subset.2 ⟨ht, List.nil_subset _⟩
      · split
        · exact ih hrest (List.cons_subset.2 ⟨ht, List.nil_subset _⟩)
        · split
          · exact .error (foundAt_atToken ht _)
          · exact ih hrest hstate
    | some group =>
      obtain ⟨bracket, items⟩ := group
      rw [extractFrom]
      split
      · refine ih hrest ?_
        rw [openTokens, ← List.cons_append]
        exact List.append_subset.2 ⟨hstate, List.cons_subset.2 ⟨ht, List.nil_subset _⟩⟩
      · split
        · exact .error (foundAt_atToken ht _)
        · split
          · split
            · exact .error (foundAt_atToken ht _)
            · exact (ih hrest (List.nil_subset _)).map fun more hmore =>
                List.forall_mem_cons.2 ⟨hstate, hmore⟩
          · exact ih hrest hstate

/-- Grouping operands fails at one of them, or its arguments hold nothing else. -/
theorem outcome_extract (operands : List Token) :
    Outcome (FoundAt operands) (fun arguments => ∀ a ∈ arguments, a.allTokens ⊆ operands)
      (extract operands) :=
  outcome_extractFrom (List.Subset.refl _) (List.nil_subset _)

end Argument

/-! ## Signals -/

namespace Token

theorem outcome_register {tokens : List Token} {t : Token} (h : t ∈ tokens) :
    Outcome (FoundAt tokens) (fun _ => True) t.register := by
  rw [register]
  split
  · exact .ok trivial
  · exact .error (foundAt_atToken h _)

theorem outcome_immediate {tokens : List Token} {t : Token} (h : t ∈ tokens) :
    Outcome (FoundAt tokens) (fun _ => True) t.immediate := by
  rw [immediate]
  split
  · exact .ok trivial
  · exact .error (foundAt_atToken h _)
  · exact .error (foundAt_atToken h _)

theorem outcome_registerOrImmediate {tokens : List Token} {t : Token} (h : t ∈ tokens)
    (reg imm : Template) :
    Outcome (FoundAt tokens) (fun _ => True) (t.registerOrImmediate reg imm) := by
  rw [registerOrImmediate]
  split
  · exact .ok trivial
  · split
    · exact .ok trivial
    · exact .error (foundAt_atToken h _)
    · exact .error (foundAt_atToken h _)

end Token

namespace OperandForm

/-- An operand that does not fit its form is at fault at one of its own tokens. -/
theorem outcome_signals (form : OperandForm) (argument : Argument) :
    Outcome (FoundAt argument.allTokens) (fun _ => True) (form.signals argument) := by
  cases argument with
  | single t =>
    have ht : t ∈ (Argument.single t).allTokens := List.mem_cons_self
    cases form with
    | register reg => exact (Token.outcome_register ht).map fun _ _ => trivial
    | immediate imm => exact (Token.outcome_immediate ht).map fun _ _ => trivial
    | either reg imm => exact Token.outcome_registerOrImmediate ht reg imm
    | address reg imm => exact .error (foundAt_atToken ht _)
  | group bracket items =>
    have hbracket : bracket ∈ (Argument.group bracket items).allTokens := List.mem_cons_self
    cases form with
    | address reg imm =>
      rcases items with _ | ⟨t, _ | ⟨u, _ | ⟨extra, more⟩⟩⟩
      · exact .error (foundAt_atToken hbracket _)
      · exact Token.outcome_registerOrImmediate (by simp [Argument.allTokens]) reg imm
      · refine (Token.outcome_register (by simp [Argument.allTokens])).bind fun _ _ => ?_
        exact (Token.outcome_immediate (by simp [Argument.allTokens])).bind fun _ _ => .ok trivial
      · exact .error (foundAt_atToken (by simp [Argument.allTokens]) _)
    | register reg => exact .error (foundAt_atToken hbracket _)
    | immediate imm => exact .error (foundAt_atToken hbracket _)
    | either reg imm => exact .error (foundAt_atToken hbracket _)

/-- The run lemma over all operands of an instruction. -/
theorem outcome_mergeSignals {tokens : List Token} {arguments : List (Argument × OperandForm)}
    (h : ∀ a ∈ arguments, a.1.allTokens ⊆ tokens) :
    ∀ signals, Outcome (FoundAt tokens) (fun _ => True) (mergeSignals signals arguments) := by
  induction arguments with
  | nil => exact fun _ => .ok trivial
  | cons a rest ih =>
    intro signals
    obtain ⟨ha, hrest⟩ := List.forall_mem_cons.1 h
    rw [mergeSignals_cons]
    refine ((outcome_signals a.2 a.1).imp (fun _ hfault => hfault.mono ha) fun _ => id).bind ?_
    exact fun more _ => ih hrest _

end OperandForm

/-- An instruction is at fault at its opcode or at one of its operands. -/
theorem Instruction.outcome_encode (i : Instruction) :
    Outcome (FoundAt (i.opcode :: i.operands)) (fun _ => True) i.encode := by
  have hopcode : i.opcode ∈ i.opcode :: i.operands := List.mem_cons_self
  have hoperands : i.operands ⊆ i.opcode :: i.operands := List.subset_cons_self _ _
  rw [encode]
  split
  · exact .error (foundAt_atToken hopcode _)
  · refine ((Argument.outcome_extract i.operands).imp (fun _ hfault => hfault.mono hoperands)
      fun _ => id).bind fun arguments harguments => ?_
    split
    · exact .error (foundAt_atToken hopcode _)
    · refine OperandForm.outcome_mergeSignals (fun a ha => ?_) _
      exact List.Subset.trans (harguments a.1 (List.of_mem_zip ha).1) hoperands

end CircuitRom
