import CircuitRom.Instruction.Encode
import CircuitRom.Proofs.Sequencing

/-!
# What encoding asks of a token

Of an operand, encoding asks whether it is a delimiter, whether it opens or closes a bracket, which
register it names and which number it writes.  The rest of a token shows in faults only.  So two
instructions whose tokens have the same answers take the same steps: they have the same signals, or
they fail at the same step, with faults at tokens that correspond.

How far two such faults are alike depends on how far the tokens are.  The relation `E` between faults
is therefore open here, and a token is asked for one more thing: that its faults are so related.
-/

namespace CircuitRom

/-! ## Two runs side by side -/

/-- Two runs concur when both succeed with related results, or both fail with related faults. -/
inductive Concur {α β : Type} (E : Diagnostic → Diagnostic → Prop) (R : α → β → Prop) :
    Except Diagnostic α → Except Diagnostic β → Prop
  | ok {a : α} {b : β} : R a b → Concur E R (.ok a) (.ok b)
  | error {d e : Diagnostic} : E d e → Concur E R (.error d) (.error e)

variable {E : Diagnostic → Diagnostic → Prop}

namespace Concur

variable {α β γ δ : Type} {R : α → β → Prop} {S : γ → δ → Prop}

theorem map {x : Except Diagnostic α} {y : Except Diagnostic β} {f : α → γ} {g : β → δ}
    (h : Concur E R x y) (hfg : ∀ a b, R a b → S (f a) (g b)) :
    Concur E S (x.map f) (y.map g) := by
  cases h with
  | ok hab => exact .ok (hfg _ _ hab)
  | error hfault => exact .error hfault

/-- If the first steps concur and so do the next ones on related results, the two runs concur. -/
theorem bind {x : Except Diagnostic α} {y : Except Diagnostic β} {f : α → Except Diagnostic γ}
    {g : β → Except Diagnostic δ} (h : Concur E R x y)
    (hfg : ∀ a b, R a b → Concur E S (f a) (g b)) : Concur E S (x >>= f) (y >>= g) := by
  cases h with
  | ok hab => exact hfg _ _ hab
  | error hfault => exact .error hfault

end Concur

/-! ## Tokens -/

namespace Token

/-- Faults of one sort at the two tokens are related, also if they quote the tokens. -/
def FailAlike (E : Diagnostic → Diagnostic → Prop) (t u : Token) : Prop :=
  ∀ cause : String → Cause, (∀ a b, (cause a).ctorIdx = (cause b).ctorIdx) →
    E (.atToken (cause t.text) t) (.atToken (cause u.text) u)

/-- The tokens have the same answers to what encoding asks of an operand. -/
structure Corresponds (E : Diagnostic → Diagnostic → Prop) (t u : Token) : Prop where
  /-- Both are delimiters, or neither is. -/
  isDelimiter : t.isDelimiter = u.isDelimiter
  /-- Both open a bracket, or neither does. -/
  opens : t.text = "[" ↔ u.text = "["
  /-- Both close a bracket, or neither does. -/
  closes : t.text = "]" ↔ u.text = "]"
  /-- They name the same register, or none. -/
  names : Register.ofName? t.text = Register.ofName? u.text
  /-- They write the same number, or are at fault as numbers in the same way. -/
  writes : Literal.parse t.text = Literal.parse u.text
  /-- Their faults are related. -/
  fails : t.FailAlike E u

theorem FailAlike.error {t u : Token} {α β : Type} {R : α → β → Prop} (h : t.FailAlike E u)
    (cause : Cause) : Concur E R (.error (.atToken cause t)) (.error (.atToken cause u)) :=
  .error (h (fun _ => cause) fun _ _ => rfl)

namespace Corresponds

variable {t u : Token}

theorem register (h : t.Corresponds E u) : Concur E Eq t.register u.register := by
  rw [Token.register, Token.register, ← h.names]
  split
  · exact .ok rfl
  · exact .error (h.fails .registerUnknown fun _ _ => rfl)

theorem immediate (h : t.Corresponds E u) : Concur E Eq t.immediate u.immediate := by
  rw [Token.immediate, Token.immediate, ← h.writes]
  split
  · exact .ok rfl
  · exact .error (h.fails .immediateRange fun _ _ => rfl)
  · exact .error (h.fails .immediateInvalid fun _ _ => rfl)

theorem registerOrImmediate (h : t.Corresponds E u) (reg imm : Template) :
    Concur E Eq (t.registerOrImmediate reg imm) (u.registerOrImmediate reg imm) := by
  rw [Token.registerOrImmediate, Token.registerOrImmediate, ← h.names, ← h.writes]
  split
  · exact .ok rfl
  · split
    · exact .ok rfl
    · exact .error (h.fails .immediateRange fun _ _ => rfl)
    · exact .error (h.fails .operandInvalid fun _ _ => rfl)

end Corresponds
end Token

/-! ## Arguments -/

namespace Argument

/-- The arguments are of one form, and their tokens correspond. -/
inductive Corresponds (E : Diagnostic → Diagnostic → Prop) : Argument → Argument → Prop
  | single {t u : Token} : t.Corresponds E u → Corresponds E (.single t) (.single u)
  | group {bracket bracket' : Token} {items items' : List Token} :
      bracket.FailAlike E bracket' → List.Forall₂ (Token.Corresponds E) items items' →
      Corresponds E (.group bracket items) (.group bracket' items')

/-- The brackets that are open, if any, and the tokens read since correspond. -/
inductive OpenCorresponds (E : Diagnostic → Diagnostic → Prop) :
    Option (Token × List Token) → Option (Token × List Token) → Prop
  | none : OpenCorresponds E none none
  | some {bracket bracket' : Token} {items items' : List Token} :
      bracket.FailAlike E bracket' → List.Forall₂ (Token.Corresponds E) items items' →
      OpenCorresponds E (some (bracket, items)) (some (bracket', items'))

/-- Both runs meet the same brackets in the same order, so they stay open and closed together. -/
theorem concur_extractFrom {operands operands' : List Token}
    (h : List.Forall₂ (Token.Corresponds E) operands operands') :
    ∀ {state state' : Option (Token × List Token)}, OpenCorresponds E state state' →
      Concur E (List.Forall₂ (Corresponds E)) (extractFrom state operands)
        (extractFrom state' operands') := by
  induction h with
  | nil =>
    intro state state' hstate
    cases hstate with
    | none => exact .ok .nil
    | some hbracket _ => exact hbracket.error _
  | @cons t u rest rest' htu _ ih =>
    intro state state' hstate
    cases hstate with
    | none =>
      rw [extractFrom, extractFrom, ← htu.isDelimiter]
      simp only [← htu.opens, ← htu.closes]
      split
      · exact (ih .none).map fun _ _ hrest => .cons (.single htu) hrest
      · split
        · exact ih (.some htu.fails .nil)
        · split
          · exact htu.fails.error _
          · exact ih .none
    | @some bracket bracket' items items' hbracket hitems =>
      rw [extractFrom, extractFrom, ← htu.isDelimiter]
      simp only [← htu.opens, ← htu.closes]
      split
      · exact ih (.some hbracket (List.rel_append hitems (.cons htu .nil)))
      · split
        · exact htu.fails.error _
        · split
          · have hempty : items.isEmpty = items'.isEmpty := by cases hitems <;> rfl
            rw [← hempty]
            split
            · exact htu.fails.error _
            · exact (ih .none).map fun _ _ hrest => .cons (.group hbracket hitems) hrest
          · exact ih (.some hbracket hitems)

theorem concur_extract {operands operands' : List Token}
    (h : List.Forall₂ (Token.Corresponds E) operands operands') :
    Concur E (List.Forall₂ (Corresponds E)) (extract operands) (extract operands') :=
  concur_extractFrom h .none

end Argument

/-! ## Signals -/

namespace OperandForm

/-- An operand of a given form gives the same signals on both sides. -/
theorem concur_signals (form : OperandForm) {a b : Argument} (h : a.Corresponds E b) :
    Concur E Eq (form.signals a) (form.signals b) := by
  cases h with
  | single htu =>
    cases form with
    | register reg => exact htu.register.map fun _ _ hword => by rw [hword]
    | immediate imm => exact htu.immediate.map fun _ _ hword => by rw [hword]
    | either reg imm => exact htu.registerOrImmediate reg imm
    | address reg imm => exact htu.fails.error _
  | group hbracket hitems =>
    cases form with
    | address reg imm =>
      cases hitems with
      | nil => exact hbracket.error _
      | cons hr hitems =>
        cases hitems with
        | nil => exact hr.registerOrImmediate reg imm
        | cons hi hitems =>
          cases hitems with
          | nil =>
            refine hr.register.bind fun base base' hbase => ?_
            refine hi.immediate.bind fun offset offset' hoffset => ?_
            rw [hbase, hoffset]
            exact .ok rfl
          | cons hextra _ => exact hextra.fails.error _
    | register reg => exact hbracket.error _
    | immediate imm => exact hbracket.error _
    | either reg imm => exact hbracket.error _

theorem mergeSignals_cons (signals : Signals) (argument : Argument) (form : OperandForm)
    (rest : List (Argument × OperandForm)) :
    mergeSignals signals ((argument, form) :: rest) =
      form.signals argument >>= fun more => mergeSignals (signals.merge more) rest := by
  rw [mergeSignals]
  cases form.signals argument <;> rfl

/-- The run lemma: the signals merged so far are the same, and so is every signal added. -/
theorem concur_mergeSignals {arguments arguments' : List Argument}
    (h : List.Forall₂ (Argument.Corresponds E) arguments arguments') :
    ∀ (forms : List OperandForm) (signals : Signals),
      Concur E Eq (mergeSignals signals (arguments.zip forms))
        (mergeSignals signals (arguments'.zip forms)) := by
  induction h with
  | nil => exact fun forms signals => .ok rfl
  | cons hab _ ih =>
    intro forms signals
    cases forms with
    | nil => exact .ok rfl
    | cons form forms =>
      rw [List.zip_cons_cons, List.zip_cons_cons, mergeSignals_cons, mergeSignals_cons]
      refine (concur_signals form hab).bind fun more more' hmore => ?_
      rw [hmore]
      exact ih forms _

end OperandForm

/-- Instructions with the same mnemonic and operands that correspond have the same signals, or fail
with related faults. -/
theorem Instruction.concur_encode {i j : Instruction}
    (hopcode : Opcode.ofName? i.opcode.text = Opcode.ofName? j.opcode.text)
    (hfails : i.opcode.FailAlike E j.opcode)
    (hoperands : List.Forall₂ (Token.Corresponds E) i.operands j.operands) :
    Concur E Eq i.encode j.encode := by
  rw [encode, encode, ← hopcode]
  split
  · exact .error (hfails .opcodeUnknown fun _ _ => rfl)
  · next op _ =>
    refine (Argument.concur_extract hoperands).bind fun arguments arguments' harguments => ?_
    rw [← harguments.length_eq]
    split
    · exact hfails.error _
    · exact OperandForm.concur_mergeSignals harguments _ _

end CircuitRom
