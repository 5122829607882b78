import CircuitRom.Proofs.Correspondence

/-!
# What encoding reads

Of a token, encoding reads the text and whether it is a delimiter.  Where a token was written, and
of what other kind it is, shows only in the place of a fault.  Two instructions with the same texts
and the same delimiters therefore have the same signals, or fail for the same cause.
-/

namespace CircuitRom

/-! ## Runs that agree -/

/-- Two runs agree when both succeed with related results, or both fail for one cause. -/
inductive Agree {α β : Type} (R : α → β → Prop) :
    Except Diagnostic α → Except Diagnostic β → Prop
  | ok {a : α} {b : β} : R a b → Agree R (.ok a) (.ok b)
  | error {d e : Diagnostic} : d.cause = e.cause → Agree R (.error d) (.error e)

namespace Agree

variable {α β γ δ : Type} {R : α → β → Prop} {S : γ → δ → Prop}

theorem map {x : Except Diagnostic α} {y : Except Diagnostic β} {f : α → γ} {g : β → δ}
    (h : Agree R x y) (hfg : ∀ a b, R a b → S (f a) (g b)) : Agree S (x.map f) (y.map g) := by
  cases h with
  | ok hab => exact .ok (hfg _ _ hab)
  | error hcause => exact .error hcause

/-- Runs that agree step by step agree as a whole. -/
theorem bind {x : Except Diagnostic α} {y : Except Diagnostic β} {f : α → Except Diagnostic γ}
    {g : β → Except Diagnostic δ} (h : Agree R x y) (hfg : ∀ a b, R a b → Agree S (f a) (g b)) :
    Agree S (x >>= f) (y >>= g) := by
  cases h with
  | ok hab => exact hfg _ _ hab
  | error hcause => exact .error hcause

theorem mapM {as : List α} {bs : List β} {f : α → Except Diagnostic γ}
    {g : β → Except Diagnostic δ} (h : List.Forall₂ R as bs)
    (hfg : ∀ a b, R a b → Agree S (f a) (g b)) :
    Agree (List.Forall₂ S) (as.mapM f) (bs.mapM g) := by
  induction h with
  | nil => exact .ok .nil
  | cons hab _ ih =>
    rw [List.mapM_cons, List.mapM_cons]
    exact (hfg _ _ hab).bind fun c d hcd => ih.bind fun cs ds hrest => .ok (.cons hcd hrest)

theorem exists_ok {x : Except Diagnostic α} {y : Except Diagnostic β} {a : α} (h : Agree R x y)
    (hx : x = .ok a) : ∃ b, y = .ok b ∧ R a b := by
  cases h with
  | ok hab =>
    cases hx
    exact ⟨_, rfl, hab⟩
  | error _ => cases hx

end Agree

/-- Runs that concur up to the places of their faults agree. -/
theorem Concur.agree {α β : Type} {R : α → β → Prop} {x : Except Diagnostic α}
    {y : Except Diagnostic β} (h : Concur (fun d e => d.cause = e.cause) R x y) : Agree R x y := by
  cases h with
  | ok hab => exact .ok hab
  | error hcause => exact .error hcause

/-! ## Instructions -/

namespace Token

variable {t u : Token}

/-- The tokens have the same text, and both are delimiters or neither is. -/
def Alike (t u : Token) : Prop := t.text = u.text ∧ t.isDelimiter = u.isDelimiter

/-- A fault quotes no more of a token than its text, so tokens of one text have faults of one
cause. -/
theorem failAlike_of_text_eq (h : t.text = u.text) :
    t.FailAlike (fun d e => d.cause = e.cause) u := by
  intro cause _
  exact congrArg cause h

theorem Alike.corresponds (h : t.Alike u) : t.Corresponds (fun d e => d.cause = e.cause) u where
  isDelimiter := h.2
  opens := by rw [h.1]
  closes := by rw [h.1]
  names := by rw [h.1]
  writes := by rw [h.1]
  fails := failAlike_of_text_eq h.1

end Token

namespace Instruction

/-- The instructions have the same texts and the same delimiters. -/
def Alike (i j : Instruction) : Prop :=
  i.opcode.text = j.opcode.text ∧ List.Forall₂ Token.Alike i.operands j.operands

/-- Instructions with the same texts and delimiters have the same signals, or fail for the same
cause. -/
theorem agree_encode {i j : Instruction} (h : i.Alike j) : Agree Eq i.encode j.encode := by
  obtain ⟨htext, hoperands⟩ := h
  have hconcur := concur_encode (congrArg Opcode.ofName? htext) (Token.failAlike_of_text_eq htext)
    (hoperands.imp fun _ _ htu => htu.corresponds)
  exact hconcur.agree

/-- Programs with the same texts and delimiters have the same signals, or fail for the same
cause. -/
theorem agree_encodeAll {is js : List Instruction} (h : List.Forall₂ Alike is js) :
    Agree Eq (encodeAll is) (encodeAll js) := by
  have hagree := Agree.mapM h fun _ _ hij => agree_encode hij
  rw [List.forall₂_eq_eq_eq] at hagree
  exact hagree

end Instruction
end CircuitRom
