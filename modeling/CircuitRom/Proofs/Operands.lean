import CircuitRom.Proofs.Agreement
import CircuitRom.Proofs.Words

/-!
# The words of an instruction that encodes

Every operand token that is no delimiter belongs to exactly one argument.  So when an instruction
encodes, its opcode is a mnemonic and all its other words are registers and literals.
-/

namespace CircuitRom
namespace Argument

/-- The tokens of an argument, without its brackets. -/
def tokens : Argument → List Token
  | single t => [t]
  | group _ items => items

/-- The tokens read since the bracket that is open, if one is. -/
def openItems : Option (Token × List Token) → List Token
  | none => []
  | some (_, items) => items

/-- Grouping neither loses a word nor invents one. -/
theorem flatMap_tokens_of_extractFrom {operands : List Token} :
    ∀ {state : Option (Token × List Token)} {arguments : List Argument},
      extractFrom state operands = .ok arguments →
      arguments.flatMap tokens = openItems state ++ operands.filter (!·.isDelimiter) := by
  induction operands with
  | nil =>
    rintro (_ | ⟨bracket, items⟩) arguments h
    · cases h
      rfl
    · cases h
  | cons t rest ih =>
    rintro (_ | ⟨bracket, items⟩) arguments h
    · rw [extractFrom] at h
      split at h
      · next hword =>
        obtain ⟨tail, htail, rfl⟩ := map_eq_ok.1 h
        rw [List.flatMap_cons, ih htail, List.filter_cons, if_pos hword]
        rfl
      · next hdelimiter =>
        rw [List.filter_cons, if_neg hdelimiter]
        split at h
        · rw [ih h]
          rfl
        · split at h
          · cases h
          · exact ih h
    · rw [extractFrom] at h
      split at h
      · next hword =>
        rw [ih h, List.filter_cons, if_pos hword]
        simp [openItems]
      · next hdelimiter =>
        rw [List.filter_cons, if_neg hdelimiter]
        split at h
        · cases h
        · split at h
          · split at h
            · cases h
            · obtain ⟨tail, htail, rfl⟩ := map_eq_ok.1 h
              rw [List.flatMap_cons, ih htail]
              rfl
          · exact ih h

theorem flatMap_tokens_of_extract {operands : List Token} {arguments : List Argument}
    (h : extract operands = .ok arguments) :
    arguments.flatMap tokens = operands.filter (!·.isDelimiter) :=
  flatMap_tokens_of_extractFrom h

end Argument

/-! ## Words that encode -/

namespace Token

theorem isOperandWord_of_register {t : Token} {word : Int32} (h : t.register = .ok word) :
    IsOperandWord t.text := by
  rw [register] at h
  split at h
  · next r hr => exact .inl ⟨r, hr⟩
  · cases h

theorem isOperandWord_of_immediate {t : Token} {word : Int32} (h : t.immediate = .ok word) :
    IsOperandWord t.text := by
  rw [immediate] at h
  split at h
  · next value hvalue => exact .inr ⟨value, hvalue⟩
  · cases h
  · cases h

/-- What is read as a register or a number is written as one. -/
theorem isOperandWord_of_registerOrImmediate {t : Token} {reg imm : Template} {signals : Signals}
    (h : t.registerOrImmediate reg imm = .ok signals) : IsOperandWord t.text := by
  rw [registerOrImmediate] at h
  split at h
  · next r hr => exact .inl ⟨r, hr⟩
  · split at h
    · next value hvalue => exact .inr ⟨value, hvalue⟩
    · cases h
    · cases h

end Token

namespace OperandForm

theorem isOperandWord_of_signals {form : OperandForm} {argument : Argument} {signals : Signals}
    (h : form.signals argument = .ok signals) :
    ∀ t ∈ argument.tokens, IsOperandWord t.text := by
  cases argument with
  | single t =>
    refine List.forall_mem_singleton.2 ?_
    cases form with
    | register reg =>
      obtain ⟨word, hword, -⟩ := map_eq_ok.1 h
      exact Token.isOperandWord_of_register hword
    | immediate imm =>
      obtain ⟨word, hword, -⟩ := map_eq_ok.1 h
      exact Token.isOperandWord_of_immediate hword
    | either reg imm => exact Token.isOperandWord_of_registerOrImmediate h
    | address reg imm => cases h
  | group bracket items =>
    cases form with
    | address reg imm =>
      match items with
      | [] => cases h
      | [t] => exact List.forall_mem_singleton.2 (Token.isOperandWord_of_registerOrImmediate h)
      | [r, i] =>
        obtain ⟨base, hbase, h⟩ := bind_eq_ok.1 h
        obtain ⟨offset, hoffset, -⟩ := bind_eq_ok.1 h
        exact List.forall_mem_cons.2 ⟨Token.isOperandWord_of_register hbase,
          List.forall_mem_singleton.2 (Token.isOperandWord_of_immediate hoffset)⟩
      | _ :: _ :: _ :: _ => cases h
    | register reg => cases h
    | immediate imm => cases h
    | either reg imm => cases h

/-- Every word of an instruction that encodes is a register or a number. -/
theorem isOperandWord_of_mergeSignals {arguments : List Argument} :
    ∀ {forms : List OperandForm} {signals result : Signals}, arguments.length = forms.length →
      mergeSignals signals (arguments.zip forms) = .ok result →
      ∀ argument ∈ arguments, ∀ t ∈ argument.tokens, IsOperandWord t.text := by
  induction arguments with
  | nil => exact fun _ _ => List.forall_mem_nil _
  | cons argument rest ih =>
    intro forms signals result hlength h
    cases forms with
    | nil => cases hlength
    | cons form forms =>
      rw [List.zip_cons_cons, mergeSignals_cons] at h
      obtain ⟨more, hmore, h⟩ := bind_eq_ok.1 h
      exact List.forall_mem_cons.2
        ⟨isOperandWord_of_signals hmore, ih (Nat.succ.inj hlength) h⟩

end OperandForm

namespace Instruction

/-- When an instruction encodes, its opcode is a mnemonic, and its operands are delimiters,
registers and literals. -/
theorem words_of_encode {i : Instruction} {signals : Signals} (h : i.encode = .ok signals) :
    (∃ op, Opcode.ofName? i.opcode.text = some op) ∧
    ∀ t ∈ i.operands, t.isDelimiter = false → IsOperandWord t.text := by
  rw [encode] at h
  split at h
  · cases h
  · next op hop =>
    obtain ⟨arguments, hextract, h⟩ := bind_eq_ok.1 h
    split at h
    · cases h
    · next hlength =>
      refine ⟨⟨op, hop⟩, fun t ht hword => ?_⟩
      have hmem : t ∈ arguments.flatMap Argument.tokens := by
        rw [Argument.flatMap_tokens_of_extract hextract, List.mem_filter, hword]
        exact ⟨ht, rfl⟩
      obtain ⟨argument, hargument, ht⟩ := List.mem_flatMap.1 hmem
      exact OperandForm.isOperandWord_of_mergeSignals (not_not.1 hlength) h argument hargument t ht

end Instruction
end CircuitRom
