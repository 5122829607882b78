import CircuitRom.Proofs.LineShape
import CircuitRom.Proofs.Scanning
import Mathlib.Computability.RegularExpressions
import Mathlib.Data.List.TakeWhile

/-!
# The grammar of a source line

Kinds are given in one pass that looks one lexeme ahead and remembers whether the opcode has been
read.  This file compares it with a grammar.  By itself a lexeme is a printable word, another word,
a delimiter or a colon, and a line is what the regular expression `lineGrammar` matches: labels
with their colons, mixed with delimiters and unknown words, and then at most one statement, which
starts with its opcode and has no colon.

* `classify_of_fits`: what the grammar matches is read, and the two parts of the line decide the
  kinds;
* `exists_stray`: any other line has a first colon that does not fit, and the lexer stops there;
* `exists_firstStray`: a text fails at its first such line.
-/

namespace CircuitRom

/-- What a lexeme is by itself. -/
inductive Shape
  /-- A word of printable ASCII. -/
  | word
  /-- Any other word. -/
  | unknown
  /-- One of `[`, `]` and `,`. -/
  | delimiter
  /-- A colon. -/
  | colon
deriving DecidableEq, Repr

/-! ## The grammar -/

open Shape RegularExpression in
/-- What stands before the statement: delimiters, unknown words, and labels with their colons. -/
def labelGrammar : RegularExpression Shape :=
  RegularExpression.star (char delimiter + char unknown + char word * char colon)

open Shape RegularExpression in
/-- A statement, if there is one: the opcode, and then no colon. -/
def statementGrammar : RegularExpression Shape :=
  1 + char word * RegularExpression.star (char delimiter + char unknown + char word)

/-- A source line. -/
def lineGrammar : RegularExpression Shape := labelGrammar * statementGrammar

namespace Lexeme

/-- The shape of a lexeme. -/
def shape (l : Lexeme) : Shape :=
  if l.isColon then .colon
  else if l.isDelimiter then .delimiter
  else if l.isPrintable then .word
  else .unknown

/-- The shapes of the lexemes match the grammar. -/
def Fits (grammar : RegularExpression Shape) (lexemes : List Lexeme) : Prop :=
  lexemes.map shape ∈ grammar.matches'

instance (grammar : RegularExpression Shape) (lexemes : List Lexeme) :
    Decidable (Fits grammar lexemes) :=
  decidable_of_iff _ (grammar.rmatch_iff_matches' (lexemes.map shape))

/-- The kind of a lexeme before the statement.  A word there is a label. -/
def labelPartKind (l : Lexeme) : Kind :=
  match l.shape with
  | .word => if l.chars.length = 1 ∧ l.chars.all Char.isDigit = true then .numeric else .symbolic
  | .unknown => .unknown
  | .delimiter => .delimiter
  | .colon => .colon

/-- The kind of a lexeme after the opcode. -/
def operandPartKind (l : Lexeme) : Kind :=
  match l.shape with
  | .word => .operand
  | .unknown => .unknown
  | .delimiter => .delimiter
  | .colon => .colon

/-- The tokens of a statement. -/
def statementTokens (number : Nat) (raw : String) : List Lexeme → Line
  | [] => []
  | l :: rest =>
    l.token number raw .opcode :: rest.map fun l => l.token number raw l.operandPartKind

/-- The tokens of a line whose statement starts at `tail`. -/
def lineTokens (number : Nat) (raw : String) (head tail : List Lexeme) : Line :=
  head.map (fun l => l.token number raw l.labelPartKind) ++ statementTokens number raw tail

/-- The fault of a colon that does not fit behind the lexemes `before`. -/
def strayFault (number : Nat) (raw : String) (before : List Lexeme) (colon : Lexeme) : Diagnostic :=
  match before.getLast? with
  | none => ⟨.labelMissing, ⟨number, colon.col, raw⟩, []⟩
  | some l => ⟨.labelInvalid (String.ofList l.chars), ⟨number, l.col, raw⟩, []⟩

variable {number : Nat} {raw : String} {l : Lexeme} {lexemes rest : List Lexeme}

/-! ## Shapes -/

theorem isColon_iff : l.isColon = true ↔ l.shape = .colon := by
  unfold shape
  split_ifs with hcolon <;> simp [hcolon]

theorem isColon_eq_false (h : l.shape ≠ .colon) : l.isColon = false :=
  Bool.eq_false_iff.2 fun hcolon => h (isColon_iff.1 hcolon)

/-- The tests that the shapes other than the colon stand for. -/
theorem shape_cases (h : l.shape ≠ .colon) :
    (l.shape = .delimiter ∧ l.isDelimiter = true) ∨
      (l.shape = .word ∧ l.isDelimiter = false ∧ l.isPrintable = true) ∨
      (l.shape = .unknown ∧ l.isDelimiter = false ∧ l.isPrintable = false) := by
  have hcolon := isColon_eq_false h
  unfold shape
  by_cases hdelimiter : l.isDelimiter = true
  · simp [hcolon, hdelimiter]
  · by_cases hprintable : l.isPrintable = true
    · simp [hcolon, hdelimiter, hprintable]
    · simp [hcolon, hdelimiter, hprintable]

theorem labelKind_eq (l : Lexeme) : l.labelKind =
    if l.chars.length = 1 ∧ l.chars.all Char.isDigit = true then .numeric else .symbolic := by
  unfold labelKind
  split
  · next c hchars => simp [hchars]
  · next hchars =>
    refine (if_neg ?_).symm
    rintro ⟨hlength, -⟩
    obtain ⟨c, hc⟩ := List.length_eq_one_iff.1 hlength
    exact hchars c hc

/-- After the opcode, the shape of a lexeme gives its kind. -/
theorem kind_named (h : l.shape ≠ .colon) : l.kind true [] = l.operandPartKind := by
  unfold kind operandPartKind
  rcases shape_cases h with ⟨hshape, hdelimiter⟩ | ⟨hshape, hdelimiter, hprintable⟩ |
    ⟨hshape, hdelimiter, hprintable⟩
  · rw [hshape, hdelimiter]
    rfl
  · rw [hshape, hdelimiter, hprintable]
    rfl
  · rw [hshape, hdelimiter, hprintable]
    rfl

/-- Before the opcode, only a printable word depends on what follows it. -/
theorem kind_single (h : l.shape = .delimiter ∨ l.shape = .unknown) (named : Bool)
    (rest : List Lexeme) : l.kind named rest = l.labelPartKind := by
  have hne : l.shape ≠ .colon := by rcases h with h | h <;> simp [h]
  unfold kind labelPartKind
  rcases shape_cases hne with ⟨hshape, hdelimiter⟩ | ⟨hshape, -, -⟩ |
    ⟨hshape, hdelimiter, hprintable⟩
  · rw [hshape, hdelimiter]
    rfl
  · simp [hshape] at h
  · rw [hshape, hdelimiter, hprintable]
    rfl

/-- Before the opcode a word is a label if a colon follows, and the opcode otherwise. -/
theorem kind_word (h : l.shape = .word) (rest : List Lexeme) :
    l.kind false rest = if rest.head?.any (·.isColon) then l.labelPartKind else .opcode := by
  have hne : l.shape ≠ .colon := by simp [h]
  unfold kind labelPartKind
  rcases shape_cases hne with ⟨hshape, -⟩ | ⟨-, hdelimiter, hprintable⟩ | ⟨hshape, -, -⟩
  · simp [h] at hshape
  · rw [h, hdelimiter, hprintable, labelKind_eq]
    rfl
  · simp [h] at hshape

/-! ## What the grammar matches -/

/-- The lexemes before the statement, one delimiter, unknown word or label after the other. -/
inductive LabelPart : List Lexeme → Prop
  | nil : LabelPart []
  | single {l : Lexeme} {rest : List Lexeme} :
      l.shape = .delimiter ∨ l.shape = .unknown → LabelPart rest → LabelPart (l :: rest)
  | label {l colon : Lexeme} {rest : List Lexeme} :
      l.shape = .word → colon.shape = .colon → LabelPart rest → LabelPart (l :: colon :: rest)

section Fits

variable {first second item : RegularExpression Shape}

theorem fits_char_iff {shape : Shape} :
    Fits (.char shape) lexemes ↔ ∃ l, lexemes = [l] ∧ l.shape = shape := by
  unfold Fits
  rw [RegularExpression.matches'_char]
  exact List.map_eq_singleton_iff

theorem fits_add_iff : Fits (first + second) lexemes ↔ Fits first lexemes ∨ Fits second lexemes :=
  Iff.rfl

theorem fits_mul_iff : Fits (first * second) lexemes ↔
    ∃ head tail, lexemes = head ++ tail ∧ Fits first head ∧ Fits second tail := by
  unfold Fits
  rw [RegularExpression.matches'_mul, Language.mem_mul]
  constructor
  · rintro ⟨a, ha, b, hb, happend⟩
    obtain ⟨head, tail, rfl, rfl, rfl⟩ := List.map_eq_append_iff.1 happend.symm
    exact ⟨head, tail, rfl, ha, hb⟩
  · rintro ⟨head, tail, rfl, hhead, htail⟩
    exact ⟨_, hhead, _, htail, List.map_append.symm⟩

theorem fits_star_nil : Fits item.star [] := Language.nil_mem_kstar _

/-- A match of a repetition grows by one item on the left. -/
theorem fits_star_append {head rest : List Lexeme} (hhead : Fits item head)
    (hrest : Fits item.star rest) : Fits item.star (head ++ rest) := by
  obtain ⟨parts, hparts, hall⟩ := Language.mem_kstar.1 hrest
  refine Language.mem_kstar.2 ⟨head.map shape :: parts, ?_, List.forall_mem_cons.2 ⟨hhead, hall⟩⟩
  rw [List.map_append, hparts, List.flatten_cons]

/-- There is no other match of a repetition. -/
theorem fits_star_induction {motive : List Lexeme → Prop} (nil : motive [])
    (append : ∀ head rest, Fits item head → motive rest → motive (head ++ rest))
    (h : Fits item.star lexemes) : motive lexemes := by
  obtain ⟨parts, hparts, hall⟩ := Language.mem_kstar.1 h
  clear h
  induction parts generalizing lexemes with
  | nil =>
    rw [List.map_eq_nil_iff.1 hparts]
    exact nil
  | cons part parts ih =>
    obtain ⟨hpart, hparts'⟩ := List.forall_mem_cons.1 hall
    rw [List.flatten_cons, List.map_eq_append_iff] at hparts
    obtain ⟨head, rest, rfl, rfl, hrest⟩ := hparts
    exact append head rest hpart (ih hrest hparts')

end Fits

theorem fits_labelItem_iff :
    Fits (.char .delimiter + .char .unknown + .char .word * .char .colon) lexemes ↔
      (∃ l, lexemes = [l] ∧ (l.shape = .delimiter ∨ l.shape = .unknown)) ∨
        ∃ l colon, lexemes = [l, colon] ∧ l.shape = .word ∧ colon.shape = .colon := by
  simp only [fits_add_iff, fits_mul_iff, fits_char_iff]
  constructor
  · rintro ((⟨l, rfl, hl⟩ | ⟨l, rfl, hl⟩) | ⟨-, -, rfl, ⟨l, rfl, hl⟩, colon, rfl, hcolon⟩)
    · exact .inl ⟨l, rfl, .inl hl⟩
    · exact .inl ⟨l, rfl, .inr hl⟩
    · exact .inr ⟨l, colon, rfl, hl, hcolon⟩
  · rintro (⟨l, rfl, hl | hl⟩ | ⟨l, colon, rfl, hl, hcolon⟩)
    · exact .inl (.inl ⟨l, rfl, hl⟩)
    · exact .inl (.inr ⟨l, rfl, hl⟩)
    · exact .inr ⟨[l], [colon], rfl, ⟨l, rfl, hl⟩, colon, rfl, hcolon⟩

/-- The label part in the form that the lexer goes through it. -/
theorem fits_label_iff : Fits labelGrammar lexemes ↔ LabelPart lexemes := by
  constructor
  · refine fits_star_induction .nil fun head rest hhead hrest => ?_
    rcases fits_labelItem_iff.1 hhead with ⟨l, rfl, hl⟩ | ⟨l, colon, rfl, hl, hcolon⟩
    · exact .single hl hrest
    · exact .label hl hcolon hrest
  · intro h
    induction h with
    | nil => exact fits_star_nil
    | @single l rest hl _ ih =>
      exact fits_star_append (fits_labelItem_iff.2 (.inl ⟨l, rfl, hl⟩)) ih
    | @label l colon rest hl hcolon _ ih =>
      exact fits_star_append (fits_labelItem_iff.2 (.inr ⟨l, colon, rfl, hl, hcolon⟩)) ih

theorem fits_operandItem_iff :
    Fits (.char .delimiter + .char .unknown + .char .word) lexemes ↔
      ∃ l, lexemes = [l] ∧ l.shape ≠ .colon := by
  simp only [fits_add_iff, fits_char_iff]
  constructor
  · rintro ((⟨l, rfl, hl⟩ | ⟨l, rfl, hl⟩) | ⟨l, rfl, hl⟩)
    all_goals exact ⟨l, rfl, by simp [hl]⟩
  · rintro ⟨l, rfl, hl⟩
    rcases shape_cases hl with ⟨hshape, -⟩ | ⟨hshape, -⟩ | ⟨hshape, -⟩
    · exact .inl (.inl ⟨l, rfl, hshape⟩)
    · exact .inr ⟨l, rfl, hshape⟩
    · exact .inl (.inr ⟨l, rfl, hshape⟩)

/-- Operands are whatever has no colon in it. -/
theorem fits_operands_iff :
    Fits (RegularExpression.star (.char .delimiter + .char .unknown + .char .word)) lexemes ↔
      ∀ l ∈ lexemes, l.shape ≠ .colon := by
  constructor
  · refine fits_star_induction (motive := fun lexemes => ∀ l ∈ lexemes, l.shape ≠ .colon)
      (List.forall_mem_nil _) fun head rest hhead hrest => ?_
    obtain ⟨l, rfl, hl⟩ := fits_operandItem_iff.1 hhead
    exact List.forall_mem_cons.2 ⟨hl, hrest⟩
  · intro h
    induction lexemes with
    | nil => exact fits_star_nil
    | cons l rest ih =>
      obtain ⟨hl, hrest⟩ := List.forall_mem_cons.1 h
      exact fits_star_append (fits_operandItem_iff.2 ⟨l, rfl, hl⟩) (ih hrest)

/-- A statement is empty, or it is an opcode and what has no colon. -/
theorem fits_statement_iff : Fits statementGrammar lexemes ↔
    lexemes = [] ∨ ∃ l rest, lexemes = l :: rest ∧ l.shape = .word ∧
      ∀ l ∈ rest, l.shape ≠ .colon := by
  have hnil : Fits 1 lexemes ↔ lexemes = [] := List.map_eq_nil_iff
  unfold statementGrammar
  simp only [fits_add_iff, fits_mul_iff, hnil, fits_char_iff, fits_operands_iff]
  constructor
  · rintro (rfl | ⟨-, rest, rfl, ⟨l, rfl, hl⟩, hrest⟩)
    · exact .inl rfl
    · exact .inr ⟨l, rest, rfl, hl, hrest⟩
  · rintro (rfl | ⟨l, rest, rfl, hl, hrest⟩)
    · exact .inl rfl
    · exact .inr ⟨[l], rest, rfl, ⟨l, rfl, hl⟩, hrest⟩

/-! ## Lines that are read -/

theorem classify_colon {named : Bool} {previous : Option Token} (hcolon : l.shape = .colon)
    (hprevious : previous.any (·.kind.isLabel) = true) :
    classify number raw named previous (l :: rest) =
      (classify number raw named (some (l.token number raw .colon)) rest).map
        (l.token number raw .colon :: ·) := by
  rw [classify, if_pos (isColon_iff.2 hcolon), if_pos hprevious]

/-- Before the statement exactly the words are labels. -/
theorem isLabel_labelPartKind : l.labelPartKind.isLabel = true ↔ l.shape = .word := by
  unfold labelPartKind
  cases l.shape with
  | word =>
    dsimp only
    split <;> simp [Kind.isLabel]
  | unknown => simp [Kind.isLabel]
  | delimiter => simp [Kind.isLabel]
  | colon => simp [Kind.isLabel]

theorem isLabel_operandPartKind (l : Lexeme) : l.operandPartKind.isLabel = false := by
  unfold operandPartKind
  cases l.shape <;> rfl

theorem labelPartKind_ne_opcode (l : Lexeme) : (l.labelPartKind == .opcode) = false := by
  unfold labelPartKind
  cases l.shape with
  | word =>
    dsimp only
    split <;> rfl
  | unknown => rfl
  | delimiter => rfl
  | colon => rfl

/-- The label part is read from left to right, and no opcode is found in it. -/
theorem classify_labelPart {head : List Lexeme} (h : LabelPart head) (rest : List Lexeme) :
    ∀ previous, classify number raw false previous (head ++ rest) =
      (classify number raw false
        ((head.getLast?.map fun l => l.token number raw l.labelPartKind).or previous) rest).map
        (head.map (fun l => l.token number raw l.labelPartKind) ++ ·) := by
  induction h with
  | nil =>
    intro previous
    exact (id_map _).symm
  | @single l head hl _ ih =>
    intro previous
    have hcolon : l.isColon = false := isColon_eq_false (by rcases hl with hl | hl <;> simp [hl])
    rw [List.cons_append, classify_cons hcolon (kind_single hl false _), labelPartKind_ne_opcode,
      Bool.or_false, ih, getLast?_cons_map_or]
    cases classify number raw false _ rest <;> rfl
  | @label l colon head hl hcolon _ ih =>
    intro previous
    have hnot : l.isColon = false := isColon_eq_false (by simp [hl])
    have hkind : l.kind false (colon :: (head ++ rest)) = l.labelPartKind := by
      rw [kind_word hl]
      exact if_pos (isColon_iff.2 hcolon)
    have hcolonKind : colon.labelPartKind = .colon := by
      unfold labelPartKind
      rw [hcolon]
    have hlabel : (some (l.token number raw l.labelPartKind)).any (·.kind.isLabel) = true :=
      isLabel_labelPartKind.2 hl
    rw [List.cons_append, List.cons_append, classify_cons hnot hkind, labelPartKind_ne_opcode,
      Bool.or_false, classify_colon hcolon hlabel, ih, getLast?_cons_map_or, getLast?_cons_map_or,
      hcolonKind]
    rw [List.map_cons, List.map_cons, hcolonKind]
    cases classify number raw false _ rest <;> rfl

/-- Neither the label part nor what follows the opcode ends in a label without its colon. -/
theorem LabelPart.shape_getLast {head : List Lexeme} (h : LabelPart head) :
    ∀ l ∈ head.getLast?, l.shape ≠ .word := by
  induction h with
  | nil => simp
  | @single l head hl _ ih =>
    rw [List.getLast?_cons]
    cases hlast : head.getLast? with
    | none => rcases hl with hl | hl <;> simp [hl]
    | some last => simpa using ih last hlast
  | @label l colon head hl hcolon _ ih =>
    rw [List.getLast?_cons_cons, List.getLast?_cons]
    cases hlast : head.getLast? with
    | none => simp [hcolon]
    | some last => simpa using ih last hlast

/-- From the opcode on, all goes well up to the next colon. -/
theorem classify_opcode {operands : List Lexeme} (hl : l.shape = .word)
    (hoperands : ∀ l ∈ operands, l.shape ≠ .colon)
    (hnext : (operands ++ rest).head?.any (·.isColon) = false) (previous : Option Token) :
    classify number raw false previous (l :: operands ++ rest) =
      (classify number raw true
        ((operands.getLast?.map fun l => l.token number raw l.operandPartKind).or
          (some (l.token number raw .opcode))) rest).map
        (statementTokens number raw (l :: operands) ++ ·) := by
  have hcolon : l.isColon = false := isColon_eq_false (by simp [hl])
  have hkind : l.kind false (operands ++ rest) = .opcode := by
    rw [kind_word hl, hnext]
    rfl
  have hkinds : ∀ l ∈ operands,
      l.token number raw (l.kind true []) = l.token number raw l.operandPartKind :=
    fun l hl => congrArg _ (kind_named (hoperands l hl))
  have hlast : operands.getLast?.map (fun l => l.token number raw (l.kind true [])) =
      operands.getLast?.map fun l => l.token number raw l.operandPartKind :=
    Option.map_congr fun l hl => hkinds l (List.mem_of_getLast? hl)
  rw [List.cons_append, classify_cons hcolon hkind, beq_self_eq_true, Bool.or_true,
    classify_named fun l hl => isColon_eq_false (hoperands l hl), hlast,
    List.map_congr_left hkinds]
  cases classify number raw true _ rest <;> rfl

theorem head?_any_isColon (h : ∀ l ∈ lexemes, l.shape ≠ .colon) :
    lexemes.head?.any (·.isColon) = false := by
  cases lexemes with
  | nil => rfl
  | cons l rest => exact isColon_eq_false (h l List.mem_cons_self)

/-- What the grammar matches is read, and the two parts of the line decide the kinds. -/
theorem classify_of_fits {head tail : List Lexeme} (hhead : Fits labelGrammar head)
    (htail : Fits statementGrammar tail) :
    classify number raw false none (head ++ tail) = .ok (lineTokens number raw head tail) := by
  rw [classify_labelPart (fits_label_iff.1 hhead)]
  rcases fits_statement_iff.1 htail with rfl | ⟨l, operands, rfl, hl, hoperands⟩
  · rfl
  · have hnext := head?_any_isColon hoperands
    rw [← List.append_nil operands] at hnext
    have hread := @classify_opcode number raw l [] operands hl hoperands hnext
    rw [List.append_nil] at hread
    rw [hread, classify]
    exact congrArg (fun tokens => Except.ok (_ ++ tokens)) (List.append_nil _)

/-! ## Lines that are refused -/

/-- A colon that does not follow a label is refused, with the lexeme before it. -/
theorem classify_stray {named : Bool} {before : List Lexeme} {toToken : Lexeme → Token}
    (hcolon : l.shape = .colon) (rest : List Lexeme)
    (htoken : ∀ last ∈ before.getLast?, (toToken last).kind.isLabel = false ∧
      ∃ kind, toToken last = last.token number raw kind) :
    classify number raw named (before.getLast?.map toToken) (l :: rest) =
      .error (strayFault number raw before l) := by
  unfold strayFault
  rw [classify, if_pos (isColon_iff.2 hcolon)]
  cases hlast : before.getLast? with
  | none => rfl
  | some last =>
    obtain ⟨hlabel, kind, hkind⟩ := htoken last hlast
    rw [Option.map_some, Option.any_some, hlabel, hkind]
    rfl

/-- A colon after the label part stands where a label should. -/
theorem classify_stray_label {head : List Lexeme} (hhead : LabelPart head)
    (hcolon : l.shape = .colon) (rest : List Lexeme) :
    classify number raw false none (head ++ l :: rest) =
      .error (strayFault number raw head l) := by
  rw [classify_labelPart hhead, Option.or_none, classify_stray hcolon]
  · rfl
  · intro last hlast
    refine ⟨Bool.eq_false_iff.2 fun hword => ?_, _, rfl⟩
    exact hhead.shape_getLast last hlast (isLabel_labelPartKind.1 hword)

/-- A colon after the operands of a statement follows no label. -/
theorem classify_stray_operand {head operands : List Lexeme} {operand colon : Lexeme}
    (hhead : LabelPart head) (hl : l.shape = .word)
    (hoperands : ∀ l ∈ operand :: operands, l.shape ≠ .colon) (hcolon : colon.shape = .colon)
    (rest : List Lexeme) :
    classify number raw false none (head ++ l :: operand :: operands ++ colon :: rest) =
      .error (strayFault number raw (head ++ l :: operand :: operands) colon) := by
  have hnext : (operand :: operands ++ colon :: rest).head?.any (·.isColon) = false :=
    isColon_eq_false (hoperands operand List.mem_cons_self)
  have hlast : (head ++ l :: operand :: operands).getLast? = (operand :: operands).getLast? := by
    rw [List.getLast?_append_cons, List.getLast?_cons_cons]
  have hprevious : ((operand :: operands).getLast?.map fun l =>
      l.token number raw l.operandPartKind).or (some (l.token number raw .opcode)) =
      (head ++ l :: operand :: operands).getLast?.map fun l =>
        l.token number raw l.operandPartKind := by
    rw [hlast, List.getLast?_cons]
    rfl
  rw [List.append_assoc, classify_labelPart hhead, classify_opcode hl hoperands hnext, hprevious,
    classify_stray hcolon]
  · rfl
  · intro last _
    exact ⟨isLabel_operandPartKind last, _, rfl⟩

/-- Every line has a label part that ends at a colon, at an opcode or with the line. -/
theorem exists_labelPart (lexemes : List Lexeme) :
    ∃ head rest, lexemes = head ++ rest ∧ LabelPart head ∧
      ∀ l more, rest = l :: more →
        l.shape = .colon ∨ l.shape = .word ∧ more.head?.any (·.isColon) = false := by
  induction hlength : lexemes.length using Nat.strongRecOn generalizing lexemes with
  | ind n ih =>
    subst hlength
    cases lexemes with
    | nil => exact ⟨[], [], rfl, .nil, by simp⟩
    | cons l rest =>
      by_cases hsingle : l.shape = .delimiter ∨ l.shape = .unknown
      · obtain ⟨head, tail, rfl, hhead, htail⟩ := ih rest.length (Nat.lt_succ_self _) rest rfl
        exact ⟨l :: head, tail, rfl, .single hsingle hhead, htail⟩
      · by_cases hlabel : l.shape = .word ∧ rest.head?.any (·.isColon) = true
        · obtain ⟨hl, hnext⟩ := hlabel
          cases rest with
          | nil => cases hnext
          | cons colon rest =>
            have hlt : rest.length < (l :: colon :: rest).length := by
              simp only [List.length_cons]
              omega
            obtain ⟨head, tail, rfl, hhead, htail⟩ := ih rest.length hlt rest rfl
            exact ⟨l :: colon :: head, tail, rfl, .label hl (isColon_iff.1 hnext) hhead, htail⟩
        · refine ⟨[], l :: rest, rfl, .nil, ?_⟩
          intro first more hrest
          cases hrest
          by_cases hcolon : l.shape = .colon
          · exact .inl hcolon
          · have hl : l.shape = .word := by
              rcases shape_cases hcolon with ⟨hshape, -⟩ | ⟨hshape, -⟩ | ⟨hshape, -⟩
              · exact absurd (.inl hshape) hsingle
              · exact hshape
              · exact absurd (.inr hshape) hsingle
            exact .inr ⟨hl, Bool.eq_false_iff.2 fun hnext => hlabel ⟨hl, hnext⟩⟩

/-- What stands before the first colon, if there is one. -/
theorem exists_operands (lexemes : List Lexeme) :
    ∃ operands rest, lexemes = operands ++ rest ∧ (∀ l ∈ operands, l.shape ≠ .colon) ∧
      ∀ l more, rest = l :: more → l.shape = .colon := by
  refine ⟨lexemes.takeWhile (!·.isColon), lexemes.dropWhile (!·.isColon),
    List.takeWhile_append_dropWhile.symm, ?_, ?_⟩
  · intro l hl hcolon
    have hnot := List.mem_takeWhile_imp hl
    rw [isColon_iff.2 hcolon] at hnot
    cases hnot
  · intro l more hrest
    have hhead := List.head?_dropWhile_not (!·.isColon) lexemes
    rw [hrest] at hhead
    have hcolon : (!l.isColon) = false := hhead
    rw [Bool.not_eq_false'] at hcolon
    exact isColon_iff.1 hcolon

/-- A line that the grammar does not match has a first colon that does not fit, and whatever
follows it, the lexer stops there. -/
theorem exists_stray (h : ¬Fits lineGrammar lexemes) :
    ∃ before colon after, lexemes = before ++ colon :: after ∧ colon.shape = .colon ∧
      Fits lineGrammar before ∧
      ∀ number raw after, classify number raw false none (before ++ colon :: after) =
        .error (strayFault number raw before colon) := by
  obtain ⟨head, rest, rfl, hhead, hrest⟩ := exists_labelPart lexemes
  have hfits : ∀ tail, Fits statementGrammar tail → Fits lineGrammar (head ++ tail) :=
    fun tail htail => fits_mul_iff.2 ⟨head, tail, rfl, fits_label_iff.2 hhead, htail⟩
  have hempty := hfits [] (fits_statement_iff.2 (.inl rfl))
  cases rest with
  | nil => exact absurd hempty h
  | cons l more =>
    rw [List.append_nil] at hempty
    rcases hrest l more rfl with hcolon | ⟨hl, hnext⟩
    · exact ⟨head, l, more, rfl, hcolon, hempty, fun _ _ => classify_stray_label hhead hcolon⟩
    · obtain ⟨operands, rest, rfl, hoperands, hcolon⟩ := exists_operands more
      have hstatement := hfits (l :: operands)
        (fits_statement_iff.2 (.inr ⟨l, operands, rfl, hl, hoperands⟩))
      cases rest with
      | nil =>
        rw [List.append_nil] at h
        exact absurd hstatement h
      | cons colon after =>
        have hcolon := hcolon colon after rfl
        cases operands with
        | nil =>
          -- a word in front of a colon is no opcode
          rw [List.nil_append, List.head?_cons, Option.any_some, isColon_iff.2 hcolon] at hnext
          cases hnext
        | cons operand operands =>
          exact ⟨head ++ l :: operand :: operands, colon, after, by simp, hcolon, hstatement,
            fun _ _ => classify_stray_operand hhead hl hoperands hcolon⟩

end Lexeme

/-! ## Whole texts -/

open Lexeme

/-- The lexemes of a source line. -/
def lexemesOf (raw : List Char) : List Lexeme := scan 0 (codePart raw)

/-- A line that the grammar matches is read, each part with its own kinds. -/
theorem lexLine_of_fits (number : Nat) {raw : List Char} {head tail : List Lexeme}
    (hraw : lexemesOf raw = head ++ tail) (hhead : Fits labelGrammar head)
    (htail : Fits statementGrammar tail) :
    lexLine number raw = .ok (lineTokens number (String.ofList raw) head tail) := by
  show classify number (String.ofList raw) false none (lexemesOf raw) = _
  rw [hraw]
  exact classify_of_fits hhead htail

/-- Any other line fails at its first colon that the grammar does not allow. -/
theorem lexLine_of_not_fits {raw : List Char} (h : ¬Fits lineGrammar (lexemesOf raw)) :
    ∃ before colon after, lexemesOf raw = before ++ colon :: after ∧ colon.shape = .colon ∧
      Fits lineGrammar before ∧ ¬Fits lineGrammar (before ++ [colon]) ∧
      ∀ number,
        lexLine number raw = .error (strayFault number (String.ofList raw) before colon) := by
  obtain ⟨before, colon, after, hraw, hcolon, hbefore, hstray⟩ := exists_stray h
  refine ⟨before, colon, after, hraw, hcolon, hbefore, ?_, ?_⟩
  · intro hfits
    obtain ⟨head, tail, hsplit, hhead, htail⟩ := fits_mul_iff.1 hfits
    have hread := @classify_of_fits 0 "" head tail hhead htail
    rw [← hsplit, hstray] at hread
    cases hread
  · intro number
    show classify number (String.ofList raw) false none (lexemesOf raw) = _
    rw [hraw]
    exact hstray number _ after

/-- A line is read exactly if the grammar matches it. -/
theorem lexLine_eq_ok_iff {number : Nat} {raw : List Char} :
    (∃ line, lexLine number raw = .ok line) ↔ Fits lineGrammar (lexemesOf raw) := by
  constructor
  · rintro ⟨line, hline⟩
    by_contra hfits
    obtain ⟨before, colon, -, -, -, -, -, herror⟩ := lexLine_of_not_fits hfits
    rw [herror] at hline
    cases hline
  · intro hfits
    obtain ⟨head, tail, hraw, hhead, htail⟩ := fits_mul_iff.1 hfits
    exact ⟨_, lexLine_of_fits number hraw hhead htail⟩

example : Fits lineGrammar (lexemesOf "1: [ up: add r1, é ; 2:".toList) ∧
    ¬Fits lineGrammar (lexemesOf "add up: r1".toList) := by decide +kernel

theorem not_fits_of_lexLine_eq_error {number : Nat} {raw : List Char} {e : Diagnostic}
    (h : lexLine number raw = .error e) : ¬Fits lineGrammar (lexemesOf raw) := by
  intro hfits
  obtain ⟨line, hline⟩ := lexLine_eq_ok_iff.2 hfits
  rw [h] at hline
  cases hline

theorem mapM_of_tokenize_eq_error {code : String} {e : Diagnostic} (h : tokenize code = .error e) :
    ((Text.lines code.toList).zipIdx 1).mapM (fun line => lexLine line.2 line.1) = .error e := by
  rcases bind_eq_error.1 h with hmapM | ⟨lines, -, hreturn⟩
  · exact hmapM
  · cases hreturn

theorem fits_of_mapM_lexLine {raws : List (List Char)} {k : Nat} {lines : List Line}
    (h : (raws.zipIdx k).mapM (fun line => lexLine line.2 line.1) = .ok lines) :
    ∀ raw ∈ raws, Fits lineGrammar (lexemesOf raw) := by
  intro raw hraw
  rw [← List.zipIdx_map_fst k raws] at hraw
  obtain ⟨source, hsource, rfl⟩ := List.mem_map.1 hraw
  obtain ⟨line, -, hline⟩ := exists_of_mem_left (mapM_eq_ok.1 h) hsource
  exact lexLine_eq_ok_iff.1 ⟨line, hline⟩

/-- The first colon of a text that does not fit: the lines before its own are matched, and so is
its line up to it, but not with it. -/
structure FirstStray (code : String) (earlier : List (List Char)) (raw : List Char)
    (before : List Lexeme) (colon : Lexeme) : Prop where
  line : earlier ++ [raw] <+: Text.lines code.toList
  earlier : ∀ raw ∈ earlier, Fits lineGrammar (lexemesOf raw)
  place : before ++ [colon] <+: lexemesOf raw
  shape : colon.shape = .colon
  fits : Fits lineGrammar before
  stray : ¬Fits lineGrammar (before ++ [colon])

/-- The fault of a text is that of its first line that cannot be read. -/
theorem exists_firstStray {code : String} {e : Diagnostic} (h : tokenize code = .error e) :
    ∃ earlier raw before colon, FirstStray code earlier raw before colon ∧
      e = strayFault (earlier.length + 1) (String.ofList raw) before colon := by
  obtain ⟨before, source, after, read, hsplit, hbefore, hsource⟩ :=
    exists_first_of_mapM_eq_error (mapM_of_tokenize_eq_error h)
  obtain ⟨earlier, rest, hlines, rfl, hrest⟩ := List.zipIdx_eq_append_iff.1 hsplit
  obtain ⟨raw, later, rfl, rfl, -⟩ := List.zipIdx_eq_cons_iff.1 hrest.symm
  obtain ⟨lexemes, colon, rest, hraw, hcolon, hfits, hstray, herror⟩ :=
    lexLine_of_not_fits (not_fits_of_lexLine_eq_error hsource)
  rw [herror] at hsource
  cases hsource
  refine ⟨earlier, raw, lexemes, colon, ?_, by rw [Nat.add_comm]⟩
  exact {
    line := ⟨later, by rw [hlines, List.append_assoc]; rfl⟩
    earlier := fits_of_mapM_lexLine hbefore
    place := ⟨rest, by rw [hraw, List.append_assoc]; rfl⟩
    shape := hcolon
    fits := hfits
    stray := hstray }

/-- A line is read if and only if the grammar matches its lexemes, and every way to match them
gives its tokens.  A text is refused if and only if one of its lines is, and the fault is that of
the first colon that does not fit. -/
theorem tokenize_accepts_line_grammar (code : String) :
    (∀ number raw, (∃ line, lexLine number raw = .ok line) ↔ Fits lineGrammar (lexemesOf raw)) ∧
    (∀ number raw head tail, lexemesOf raw = head ++ tail → Fits labelGrammar head →
      Fits statementGrammar tail →
      lexLine number raw = .ok (lineTokens number (String.ofList raw) head tail)) ∧
    ((∃ e, tokenize code = .error e) ↔
      ∃ raw ∈ Text.lines code.toList, ¬Fits lineGrammar (lexemesOf raw)) ∧
    ∀ e, tokenize code = .error e →
      ∃ earlier raw before colon, FirstStray code earlier raw before colon ∧
        e = strayFault (earlier.length + 1) (String.ofList raw) before colon := by
  refine ⟨fun _ _ => lexLine_eq_ok_iff, fun number _ _ _ => lexLine_of_fits number, ⟨?_, ?_⟩,
    fun _ => exists_firstStray⟩
  · rintro ⟨e, he⟩
    obtain ⟨source, hsource, herror⟩ := mapM_eq_error (mapM_of_tokenize_eq_error he)
    have hmem := List.mem_map_of_mem (f := Prod.fst) hsource
    rw [List.zipIdx_map_fst] at hmem
    exact ⟨source.1, hmem, not_fits_of_lexLine_eq_error herror⟩
  · rintro ⟨raw, hraw, hnot⟩
    cases hcode : tokenize code with
    | error e => exact ⟨e, rfl⟩
    | ok lines =>
      obtain ⟨all, hall, -⟩ := bind_eq_ok.1 hcode
      exact absurd (fits_of_mapM_lexLine hall raw hraw) hnot

end CircuitRom
