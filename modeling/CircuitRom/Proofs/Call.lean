import CircuitRom.Macro.Expansion
import CircuitRom.Proofs.Sequencing

/-!
# What a call is and what replaces it

A line calls a macro by the first token after its labels.  The labels of a line are told by the
kinds of its tokens alone, and a body line keeps its kinds when it is copied into a call, so the
name of a call in the copy stands where its token stands in the body.
-/

namespace CircuitRom

/-! ## Labels of a line -/

namespace Line

/-- How many labels a line has depends only on the kinds of its tokens. -/
theorem labelCount_congr {l l' : Line} (h : List.Forall₂ (fun a b => a.kind = b.kind) l l') :
    l.labelCount = l'.labelCount := by
  induction l using labelCount.induct generalizing l' with
  | case1 label colon rest hlabel ih =>
    obtain ⟨label', l', hl, hrest, rfl⟩ := List.forall₂_cons_left_iff.1 h
    obtain ⟨colon', rest', hc, htail, rfl⟩ := List.forall₂_cons_left_iff.1 hrest
    rw [labelCount, labelCount, ← hl, ← hc, if_pos hlabel, if_pos hlabel, ih htail]
  | case2 label colon rest hlabel =>
    obtain ⟨label', l', hl, hrest, rfl⟩ := List.forall₂_cons_left_iff.1 h
    obtain ⟨colon', rest', hc, -, rfl⟩ := List.forall₂_cons_left_iff.1 hrest
    rw [labelCount, labelCount, ← hl, ← hc, if_neg hlabel, if_neg hlabel]
  | case3 l hl =>
    cases h with
    | nil => rfl
    | cons _ h =>
      cases h with
      | nil => rfl
      | cons => exact absurd rfl (hl _ _ _)

/-- The statements of lines that correspond token by token, with the same kinds, correspond. -/
theorem forall₂_statement {R : Token → Token → Prop} {l l' : Line} (h : List.Forall₂ R l l')
    (hkind : ∀ a b, R a b → a.kind = b.kind) : List.Forall₂ R l.statement l'.statement := by
  rw [statement, statement, labelCount_congr (h.imp hkind)]
  exact List.forall₂_drop _ h

/-- Labels alone have no statement. -/
theorem statement_labelPart (line : Line) : line.labelPart.statement = [] := by
  induction line using labelCount.induct with
  | case1 label colon rest hlabel ih =>
    rw [labelPart, labelCount, if_pos hlabel, Nat.mul_add, List.take_succ_cons, List.take_succ_cons,
      statement, labelCount, if_pos hlabel, Nat.mul_add, List.drop_succ_cons, List.drop_succ_cons]
    exact ih
  | case2 label colon rest hlabel =>
    rw [labelPart, labelCount, if_neg hlabel]
    rfl
  | case3 l hl =>
    have hzero : labelCount l = 0 := by
      unfold labelCount
      split
      · exact absurd rfl (hl _ _ _)
      · rfl
    rw [labelPart, hzero]
    rfl

end Line

/-! ## Calls -/

namespace MacroTable

variable {table : MacroTable} {line : Line}

theorem mem_values_of_find? {text : String} {m : Macro} (h : table.find? text = some m) :
    m ∈ table.values ∧ m.name = text := by
  have hmem := Dictionary.mem_of_find? h
  exact ⟨List.mem_map_of_mem hmem, (table.named _ hmem).symm⟩

/-- A line calls a macro exactly if its statement starts with the name of one.  What follows the
name, up to delimiters, are the arguments. -/
theorem call?_eq_some_iff {call : Call} :
    table.call? line = some call ↔
      ∃ name rest m, line.statement = name :: rest ∧ name.isDelimiter = false ∧
        table.find? name.text = some m ∧
        call = ⟨m, line.labelPart, name, rest.filter (!·.isDelimiter)⟩ := by
  rw [call?]
  split
  · next h => simp [h]
  · next name rest h =>
    split
    · next hname => simp [h, hname]
    · next hname =>
      rw [Option.map_eq_some_iff]
      constructor
      · rintro ⟨m, hm, rfl⟩
        exact ⟨name, rest, m, h, by simpa using hname, hm, rfl⟩
      · rintro ⟨name', rest', m, h', -, hm, rfl⟩
        cases h.symm.trans h'
        exact ⟨m, hm, rfl⟩

theorem call?_of_isEmpty (h : table.isEmpty = true) (line : Line) : table.call? line = none := by
  rw [Option.eq_none_iff_forall_ne_some]
  intro call hcall
  obtain ⟨name, rest, m, -, -, hm, -⟩ := call?_eq_some_iff.1 hcall
  have hmem := Dictionary.mem_of_find? hm
  rw [List.isEmpty_iff.1 h] at hmem
  cases hmem

/-- Labels alone call nothing. -/
theorem call?_labelPart (line : Line) : table.call? line.labelPart = none := by
  rw [call?, Line.statement_labelPart]

end MacroTable

/-! ## What replaces a call -/

/-- Does the text start with a dollar sign? -/
def Token.isPlaceholder (t : Token) : Bool := t.text.toList.head? == some '$'

namespace Call

variable {call : Call}

/-- The copy of a token is an argument in the place of a placeholder, or the token itself at the
place of the call. -/
theorem instantiate_eq_ok {token result : Token} :
    call.instantiate token = .ok result ↔
      (∃ digits n argument, token.text.toList = '$' :: digits ∧
        Text.count? (String.ofList digits) = some n ∧ call.arguments[n]? = some argument ∧
        result = ⟨argument.text, token.kind, argument.site, some token.site⟩) ∨
      (token.isPlaceholder = false ∧
        result = ⟨token.text, token.kind, call.name.site, some token.site⟩) := by
  rw [instantiate, Token.isPlaceholder]
  split
  · next digits htext =>
    cases hcount : Text.count? (String.ofList digits) with
    | none => simp [htext, hcount]
    | some n =>
      cases hargument : call.arguments[n]? with
      | none => simp [htext, hcount, hargument]
      | some argument =>
        simp only [htext, hargument, Except.ok.injEq]
        simp [eq_comm (b := result), hcount, hargument]
  · next htext =>
    rw [Except.ok.injEq, eq_comm]
    cases hlist : token.text.toList with
    | nil => simp
    | cons c rest =>
      have hc : c ≠ '$' := fun hc => htext rest (by rw [hlist, hc])
      simp [hc]

theorem kind_of_instantiate {token result : Token} (h : call.instantiate token = .ok result) :
    token.kind = result.kind := by
  rcases instantiate_eq_ok.1 h with ⟨_, _, _, _, _, _, rfl⟩ | ⟨_, rfl⟩ <;> rfl

/-- A call with the right number of arguments is replaced by its labels, if it has any, and the
body with each token instantiated. -/
theorem expand_eq_ok {lines : List Line} :
    call.expand = .ok lines ↔
      call.arguments.length = call.target.parameters ∧
      ∃ body, List.Forall₂ (List.Forall₂ fun t t' => call.instantiate t = .ok t')
        call.target.body body ∧
        lines = if call.labels.isEmpty then body else call.labels :: body := by
  rw [expand]
  split
  · next h => simp [h]
  · next h =>
    simp only [map_eq_ok, mapM_eq_ok, not_not.1 h, true_and, eq_comm (b := lines)]

end Call
end CircuitRom
