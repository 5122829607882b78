import CircuitRom.Assembly
import CircuitRom.Proofs.Call
import CircuitRom.Proofs.Declaration
import CircuitRom.Proofs.Delimiters
import CircuitRom.Proofs.Inlining

/-!
# The kinds of words on a line

After its labels, a source line starts with its opcode, and only operands and delimiters follow, up
to words that no program may have.  The one exception is a line that starts with a delimiter, and
no such line is an instruction.  The kinds of tokens decide this, and no stage changes them: a body
line of a macro is copied token by token, and a definition replaces texts.
-/

namespace CircuitRom

/-! ## The shape -/

/-- Is this the kind of a token that may stand after the opcode? -/
def Kind.followsOpcode : Kind → Bool
  | operand | delimiter | unknown => true
  | _ => false

/-- The statement of the line starts with an opcode and has no further one and no label, or it
starts with a delimiter or an unknown word. -/
def Line.Regular (line : Line) : Prop :=
  ∀ head rest, line.statement = head :: rest →
    head.kind = .delimiter ∨ head.kind = .unknown ∨
      head.kind = .opcode ∧ ∀ t ∈ rest, t.kind.followsOpcode = true

namespace Line

theorem regular_nil : Regular [] := by
  intro head rest h
  cases h

/-- The labels in front of a call are a line of regular shape. -/
theorem regular_labelPart (line : Line) : line.labelPart.Regular := by
  intro head rest h
  rw [statement_labelPart] at h
  cases h

/-- Only the kinds of tokens count. -/
theorem Regular.of_kinds {line line' : Line} (h : line.Regular)
    (hkinds : List.Forall₂ (fun t t' => t.kind = t'.kind) line line') : line'.Regular := by
  intro head' rest' hstatement
  have hrel := forall₂_statement hkinds fun _ _ hkind => hkind
  rw [hstatement] at hrel
  obtain ⟨head, rest, hhead, hrest, hcons⟩ := List.forall₂_cons_right_iff.1 hrel
  have hshape := h head rest hcons
  rw [hhead] at hshape
  refine hshape.imp_right fun hshape => hshape.imp_right fun hshape => ⟨hshape.1, ?_⟩
  intro t' ht'
  obtain ⟨t, ht, hkind⟩ := exists_of_mem_right hrest ht'
  rw [← hkind]
  exact hshape.2 t ht

theorem statement_eq_self {head : Token} {rest : Line} (h : head.kind.isLabel = false) :
    statement (head :: rest) = head :: rest := by
  have hcount : labelCount (head :: rest) = 0 := by
    cases rest with
    | nil => rfl
    | cons colon rest => simp [labelCount, h]
  rw [statement, hcount]
  rfl

/-- A line without labels is regular if its head is no word, or an opcode with its operands behind
it. -/
theorem regular_cons {head : Token} {rest : Line} (h : head.kind.isLabel = false)
    (hshape : head.kind = .delimiter ∨ head.kind = .unknown ∨
      head.kind = .opcode ∧ ∀ t ∈ rest, t.kind.followsOpcode = true) : Regular (head :: rest) := by
  intro first others hstatement
  rw [statement_eq_self h] at hstatement
  cases hstatement
  exact hshape

theorem statement_label_colon {label colon : Token} {rest : Line}
    (hlabel : label.kind.isLabel = true) (hcolon : colon.kind = .colon) :
    statement (label :: colon :: rest) = rest.statement := by
  have hcount : labelCount (label :: colon :: rest) = labelCount rest + 1 := by
    simp [labelCount, hlabel, hcolon]
  rw [statement, hcount, Nat.mul_add]
  rfl

end Line

/-! ## Source lines -/

namespace Lexeme

variable {number : Nat} {raw : String}

theorem isLabel_labelKind (l : Lexeme) : l.labelKind.isLabel = true := by
  rw [labelKind]
  split
  · split <;> rfl
  · rfl

theorem followsOpcode_kind (l : Lexeme) (rest : List Lexeme) :
    (l.kind true rest).followsOpcode = true := by
  rw [kind]
  split
  · rfl
  · split <;> rfl

/-- Before the opcode, a word is the opcode or a label in front of its colon. -/
theorem kind_cases (l : Lexeme) (rest : List Lexeme) :
    l.kind false rest = .delimiter ∨ l.kind false rest = .unknown ∨
      ((l.kind false rest).isLabel = true ∧ rest.head?.any (·.isColon) = true) ∨
      l.kind false rest = .opcode := by
  rw [kind]
  split
  · exact .inl rfl
  · split
    · exact .inr (.inl rfl)
    · rw [if_neg Bool.false_ne_true]
      split
      · next hcolon => exact .inr (.inr (.inl ⟨isLabel_labelKind l, hcolon⟩))
      · exact .inr (.inr (.inr rfl))

/-- After the opcode there is no label: a word is one only in front of a colon, and a colon only
stands after a label. -/
theorem followsOpcode_classify {lexemes : List Lexeme} :
    ∀ {previous : Option Token} {line : Line}, previous.any (·.kind.isLabel) = false →
      classify number raw true previous lexemes = .ok line →
      ∀ t ∈ line, t.kind.followsOpcode = true := by
  induction lexemes with
  | nil =>
    intro previous line _ h
    cases h
    exact List.forall_mem_nil _
  | cons l rest ih =>
    intro previous line hprevious h
    rw [classify, hprevious] at h
    split at h
    · cases h
    · obtain ⟨tail, htail, rfl⟩ := map_eq_ok.1 h
      have hkind := followsOpcode_kind l rest
      refine List.forall_mem_cons.2 ⟨hkind, ih ?_ htail⟩
      show (l.kind true rest).isLabel = false
      revert hkind
      cases l.kind true rest <;> simp [Kind.followsOpcode, Kind.isLabel]

/-- A label is followed by its colon. -/
theorem exists_colon {lexemes : List Lexeme} {named : Bool} {previous : Option Token} {line : Line}
    (hcolon : lexemes.head?.any (·.isColon) = true)
    (h : classify number raw named previous lexemes = .ok line) :
    ∃ colon rest, line = colon :: rest ∧ colon.kind = .colon := by
  cases lexemes with
  | nil => cases hcolon
  | cons l rest =>
    have hl : l.isColon = true := hcolon
    rw [classify, if_pos hl] at h
    split at h
    · obtain ⟨tail, -, rfl⟩ := map_eq_ok.1 h
      exact ⟨_, tail, rfl, rfl⟩
    · cases h

/-- The induction goes over all places before the opcode.  In front of the colon of a label, it is
the line after the colon that is regular. -/
theorem regular_classify {lexemes : List Lexeme} :
    ∀ {previous : Option Token} {line : Line},
      (previous.any (·.kind.isLabel) = true → lexemes.head?.any (·.isColon) = true) →
      classify number raw false previous lexemes = .ok line →
      if previous.any (·.kind.isLabel) = true then Line.Regular line.tail else line.Regular := by
  induction lexemes with
  | nil =>
    intro previous line hprevious h
    cases h
    split
    · exact Line.regular_nil
    · exact Line.regular_nil
  | cons l rest ih =>
    intro previous line hprevious h
    rw [classify] at h
    by_cases hcolon : l.isColon = true
    · -- the colon of the label before it
      rw [if_pos hcolon] at h
      split at h
      · next hlabel =>
        obtain ⟨tail, htail, rfl⟩ := map_eq_ok.1 h
        rw [if_pos hlabel]
        have hrest := ih (fun hfalse => by cases hfalse) htail
        rwa [if_neg (by simp [token, Kind.isLabel])] at hrest
      · cases h
    · have hnot : previous.any (·.kind.isLabel) ≠ true := fun hlabel => hcolon (hprevious hlabel)
      rw [if_neg hnot]
      rw [if_neg hcolon] at h
      obtain ⟨tail, htail, rfl⟩ := map_eq_ok.1 h
      generalize hhead : l.token number raw (l.kind false rest) = head at htail ⊢
      have hkind : head.kind = l.kind false rest := by rw [← hhead]; rfl
      have hcases := kind_cases l rest
      rw [← hkind] at hcases
      rcases hcases with hmark | hunknown | ⟨hlabel, hcolon⟩ | hopcode
      · exact Line.regular_cons (by rw [hmark]; rfl) (.inl hmark)
      · exact Line.regular_cons (by rw [hunknown]; rfl) (.inr (.inl hunknown))
      · have hne : head.kind ≠ .opcode := by
          intro hopcode
          rw [hopcode] at hlabel
          cases hlabel
        rw [beq_eq_false_iff_ne.2 hne] at htail
        obtain ⟨colon, others, rfl, hcolonKind⟩ := exists_colon hcolon htail
        have hothers := ih (fun _ => hcolon) htail
        rw [Option.any_some, if_pos hlabel] at hothers
        intro first more hstatement
        rw [Line.statement_label_colon hlabel hcolonKind] at hstatement
        exact hothers first more hstatement
      · have hlabel : head.kind.isLabel = false := by rw [hopcode]; rfl
        rw [hopcode] at htail
        have hrest := followsOpcode_classify ((Option.any_some ..).trans hlabel) htail
        exact Line.regular_cons hlabel (.inr (.inr ⟨hopcode, hrest⟩))

end Lexeme

/-- All lines that are read are regular. -/
theorem regular_tokenize {code : String} {lines : List Line} (h : tokenize code = .ok lines) :
    ∀ line ∈ lines, line.Regular := by
  obtain ⟨all, hall, h⟩ := bind_eq_ok.1 h
  cases h
  intro line hline
  obtain ⟨source, -, hlex⟩ :=
    exists_of_mem_right (mapM_eq_ok.1 hall) (List.mem_of_mem_filter hline)
  exact Lexeme.regular_classify (fun hfalse => by cases hfalse) hlex

/-! ## Macros and definitions -/

/-- A call leaves its labels and regular copies of the body. -/
theorem MacroTable.regular_expand {table : MacroTable} {lines : List Line} {line : Line}
    {call : Call} (hbodies : ∀ m ∈ table.values, ∀ l ∈ m.body, Line.Regular l)
    (hcall : table.call? line = some call) (h : call.expand = .ok lines) :
    ∀ l ∈ lines, l.Regular := by
  obtain ⟨name, rest, m, -, -, hm, rfl⟩ := call?_eq_some_iff.1 hcall
  obtain ⟨-, body, hbody, rfl⟩ := Call.expand_eq_ok.1 h
  have hcopies : ∀ l ∈ body, Line.Regular l := by
    intro l hl
    obtain ⟨source, hsource, hcopy⟩ := exists_of_mem_right hbody hl
    refine (hbodies m (mem_values_of_find? hm).1 source hsource).of_kinds ?_
    exact hcopy.imp fun _ _ hinstantiate => Call.kind_of_instantiate hinstantiate
  split
  · exact hcopies
  · exact List.forall_mem_cons.2 ⟨Line.regular_labelPart line, hcopies⟩

/-- Expansion keeps lines regular, since kinds are copied with the tokens. -/
theorem regular_expandMacros {lines out : List Line} (h : expandMacros lines = .ok out)
    (hlines : ∀ line ∈ lines, line.Regular) : ∀ line ∈ out, line.Regular := by
  obtain ⟨table, hcollect, h⟩ := bind_eq_ok.1 h
  obtain ⟨-, -, h⟩ := bind_eq_ok.1 h
  have hbodies := MacroTable.body_of_collect hlines hcollect
  refine MacroTable.forall_of_settle
    (fun _ _ _ hcall hexpand _ => MacroTable.regular_expand hbodies hcall hexpand) h ?_
  exact fun line hline => hlines line (MacroTable.mem_of_mem_strip hline)

/-- Every line that is left has the kinds of a line before. -/
theorem Definition.exists_kinds_of_substituteFrom {lines out : List Line}
    {defs : Dictionary String} (h : substituteFrom defs lines = .ok out) :
    ∀ line' ∈ out, ∃ line ∈ lines, List.Forall₂ (fun t t' => t.kind = t'.kind) line line' := by
  intro line' hline'
  obtain ⟨before, line, after, rfl, rfl⟩ := exists_of_substituteFrom h line' hline'
  refine ⟨line, by simp, ?_⟩
  exact List.forall₂_map_right_iff.2 (List.forall₂_same.2 fun _ _ => rfl)

/-- Definitions change texts and no kinds, so lines stay regular. -/
theorem Definition.regular_substitute {lines out : List Line}
    (h : Definition.substitute lines = .ok out) (hlines : ∀ line ∈ lines, line.Regular) :
    ∀ line ∈ out, line.Regular := by
  intro line' hline'
  obtain ⟨line, hline, hkinds⟩ := exists_kinds_of_substituteFrom h line' hline'
  exact (hlines line hline).of_kinds hkinds

end CircuitRom
