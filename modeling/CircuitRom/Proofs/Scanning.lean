import CircuitRom.Proofs.Words

/-!
# Reading words

Words are set apart by blanks and marks, and the lexer finds them where they were written.  A line
of plain words and delimiters has no label: its first word is the opcode, and the others are
operands.
-/

namespace CircuitRom
namespace Lexeme

open Text

/-! ## Cutting a line -/

/-- A word that ends here is not continued by what follows. -/
def Stops (rest : List Char) : Prop := ∀ c ∈ rest.head?, isBlank c = true ∨ isMark c = true

theorem stops_cons {c : Char} (rest : List Char) (h : isBlank c = true ∨ isMark c = true) :
    Stops (c :: rest) := by
  intro d hd
  cases hd
  exact h

theorem mem_join {l : Lexeme} {col : Nat} {c : Char} {lexemes : List Lexeme}
    (h : l ∈ join col c lexemes) : l.col = col ∨ l ∈ lexemes := by
  cases lexemes with
  | nil => exact .inl (by rw [List.mem_singleton.1 h])
  | cons next rest =>
    rw [join] at h
    split at h
    · rcases List.mem_cons.1 h with rfl | h
      · exact .inl rfl
      · exact .inr (List.mem_cons_of_mem _ h)
    · rcases List.mem_cons.1 h with rfl | h
      · exact .inl rfl
      · exact .inr h

theorem col_le_of_mem_scan {l : Lexeme} {cs : List Char} :
    ∀ {col : Nat}, l ∈ scan col cs → col ≤ l.col := by
  induction cs with
  | nil => exact fun h => absurd h List.not_mem_nil
  | cons c rest ih =>
    intro col h
    rw [scan] at h
    split at h
    · exact Nat.le_of_succ_le (ih h)
    · split at h
      · rcases List.mem_cons.1 h with rfl | h
        · exact Nat.le_refl _
        · exact Nat.le_of_succ_le (ih h)
      · rcases mem_join h with hcol | h
        · exact Nat.le_of_eq hcol.symm
        · exact Nat.le_of_succ_le (ih h)

theorem isMark_iff {c : Char} : isMark c = true ↔ c = ':' ∨ c = '[' ∨ c = ']' ∨ c = ',' := by
  simp only [isMark, Bool.or_eq_true, beq_iff_eq, or_assoc]

theorem scan_of_isMark {col : Nat} {c : Char} (rest : List Char) (h : isMark c = true) :
    scan col (c :: rest) = ⟨col, [c]⟩ :: scan (col + 1) rest := by
  have hblank : isBlank c = false := by
    rcases isMark_iff.1 h with rfl | rfl | rfl | rfl <;> rfl
  rw [scan, hblank, h]
  rfl

theorem scan_space (col : Nat) (rest : List Char) :
    scan col (' ' :: rest) = scan (col + 1) rest := rfl

theorem scan_spaces (col n : Nat) (rest : List Char) :
    scan col (List.replicate n ' ' ++ rest) = scan (col + n) rest := by
  induction n generalizing col with
  | zero => rfl
  | succ n ih =>
    rw [List.replicate_succ, List.cons_append, scan_space, ih, Nat.add_right_comm, Nat.add_assoc]

theorem isWord_of_isMark {col : Nat} {c : Char} (h : isMark c = true) :
    (⟨col, [c]⟩ : Lexeme).isWord = false := by
  rcases isMark_iff.1 h with rfl | rfl | rfl | rfl <;> rfl

/-- Is the character part of a word, neither blank nor a mark? -/
def isWordChar (c : Char) : Bool := !isBlank c && !isMark c

theorem isWordChar_iff {c : Char} :
    isWordChar c = true ↔ isBlank c = false ∧ isMark c = false := by
  simp [isWordChar]

theorem isWordChar_of_isPlain {c : Char} (h : isPlain c = true) : isWordChar c = true :=
  isWordChar_iff.2 ⟨isBlank_of_isPlain h, isMark_of_isPlain h⟩

theorem isWord_of_isWordChar {l : Lexeme} (h : ∀ c ∈ l.chars, isWordChar c = true) :
    l.isWord = true := by
  have hne : ∀ c, isMark c = true → (l.chars == [c]) = false := by
    intro c hc
    rw [beq_eq_false_iff_ne]
    intro hchars
    have hmark := (isWordChar_iff.1 (h c (by rw [hchars]; exact List.mem_cons_self))).2
    rw [hc] at hmark
    cases hmark
  rw [isWord, isColon, isDelimiter, hne ':' rfl, hne '[' rfl, hne ']' rfl, hne ',' rfl]
  rfl

theorem isWord_of_isPlain {l : Lexeme} (h : ∀ c ∈ l.chars, isPlain c = true) :
    l.isWord = true :=
  isWord_of_isWordChar fun c hc => isWordChar_of_isPlain (h c hc)

/-- A character stands alone if no word continues right behind it. -/
theorem join_of_head {col : Nat} {c : Char} {lexemes : List Lexeme}
    (h : ∀ next ∈ lexemes.head?, next.col ≠ col + 1 ∨ next.isWord = false) :
    join col c lexemes = ⟨col, [c]⟩ :: lexemes := by
  cases lexemes with
  | nil => rfl
  | cons next rest =>
    rw [join, if_neg]
    rintro ⟨hcol, hword⟩
    rcases h next rfl with hne | hmark
    · exact hne hcol
    · exact Bool.eq_false_iff.1 hmark hword

/-- The last character of a word does not join what follows: a blank leaves a gap, and a mark is
no word. -/
theorem join_of_stops {col : Nat} {c : Char} {rest : List Char} (h : Stops rest) :
    join col c (scan (col + 1) rest) = ⟨col, [c]⟩ :: scan (col + 1) rest := by
  refine join_of_head fun next hnext => ?_
  cases rest with
  | nil => cases hnext
  | cons d rest =>
    rcases h d rfl with hblank | hmark
    · rw [scan, if_pos hblank] at hnext
      have hcol := col_le_of_mem_scan (List.mem_of_mem_head? hnext)
      exact .inl (by omega)
    · rw [scan_of_isMark rest hmark] at hnext
      cases hnext
      exact .inr (isWord_of_isMark hmark)

/-- A word in front of a blank, a mark or the end of the line is one lexeme. -/
theorem scan_run {w rest : List Char} (hword : ∀ c ∈ w, isWordChar c = true) (hne : w ≠ [])
    (hrest : Stops rest) :
    ∀ {col : Nat}, scan col (w ++ rest) = ⟨col, w⟩ :: scan (col + w.length) rest := by
  induction w with
  | nil => exact absurd rfl hne
  | cons c w ih =>
    intro col
    obtain ⟨hc, hw⟩ := List.forall_mem_cons.1 hword
    obtain ⟨hblank, hmark⟩ := isWordChar_iff.1 hc
    rw [List.cons_append, scan, hblank, hmark]
    cases w with
    | nil => exact join_of_stops hrest
    | cons d w =>
      -- the rest of the word is a lexeme in the next column, and the character joins it
      have hjoins : (col + 1 = col + 1 ∧ (⟨col + 1, d :: w⟩ : Lexeme).isWord = true) :=
        ⟨rfl, isWord_of_isWordChar hw⟩
      have hlength : col + 1 + (d :: w).length = col + (c :: d :: w).length := by
        simp only [List.length_cons]
        omega
      rw [ih hw (List.cons_ne_nil d w), join, if_pos hjoins, hlength]
      rfl

/-- A plain word is one lexeme, if what follows it stops it. -/
theorem scan_word {w rest : List Char} (hplain : ∀ c ∈ w, isPlain c = true) (hne : w ≠ [])
    (hrest : Stops rest) {col : Nat} :
    scan col (w ++ rest) = ⟨col, w⟩ :: scan (col + w.length) rest :=
  scan_run (fun c hc => isWordChar_of_isPlain (hplain c hc)) hne hrest

/-! ## Giving kinds -/

/-- The kind of a lexeme after the opcode of a line. -/
def operandKind (l : Lexeme) : Kind := if l.isDelimiter then .delimiter else .operand

/-- One step of giving kinds, except at a colon. -/
theorem classify_cons {number : Nat} {raw : String} {named : Bool} {previous : Option Token}
    {l : Lexeme} {rest : List Lexeme} {kind : Kind} (hcolon : l.isColon = false)
    (hkind : l.kind named rest = kind) :
    classify number raw named previous (l :: rest) =
      (classify number raw (named || kind == .opcode) (some (l.token number raw kind)) rest).map
        (l.token number raw kind :: ·) := by
  rw [classify, hcolon, hkind]
  rfl

theorem getLast?_cons_map_or {α β : Type} (f : α → β) (a : α) (as : List α) (b : Option β) :
    ((a :: as).getLast?.map f).or b = (as.getLast?.map f).or (some (f a)) := by
  rw [List.getLast?_cons]
  cases as.getLast? <;> rfl

/-- After the opcode, all goes well up to the next colon. -/
theorem classify_named {number : Nat} {raw : String} {lexemes : List Lexeme}
    (hcolon : ∀ l ∈ lexemes, l.isColon = false) (rest : List Lexeme) :
    ∀ previous, classify number raw true previous (lexemes ++ rest) =
      (classify number raw true
        ((lexemes.getLast?.map fun l => l.token number raw (l.kind true [])).or previous) rest).map
        (lexemes.map (fun l => l.token number raw (l.kind true [])) ++ ·) := by
  induction lexemes with
  | nil =>
    intro previous
    exact (id_map _).symm
  | cons l lexemes ih =>
    intro previous
    obtain ⟨hl, hcolon⟩ := List.forall_mem_cons.1 hcolon
    have hkind : l.kind true (lexemes ++ rest) = l.kind true [] := rfl
    rw [List.cons_append, classify_cons hl hkind, Bool.true_or, ih hcolon, getLast?_cons_map_or]
    cases classify number raw true _ rest <;> rfl

/-- Behind the opcode all printable words are operands. -/
theorem classify_operands {number : Nat} {raw : String} {lexemes : List Lexeme}
    (hcolon : ∀ l ∈ lexemes, l.isColon = false) (hprintable : ∀ l ∈ lexemes, l.isPrintable = true)
    (previous : Option Token) : classify number raw true previous lexemes =
      .ok (lexemes.map fun l => l.token number raw l.operandKind) := by
  have hkind : ∀ l ∈ lexemes,
      l.token number raw (l.kind true []) = l.token number raw l.operandKind := by
    intro l hl
    rw [kind, operandKind, hprintable l hl]
    rfl
  have h := @classify_named number raw lexemes hcolon [] previous
  rw [List.append_nil] at h
  rw [h, List.map_congr_left hkind]
  exact congrArg Except.ok (List.append_nil _)

/-- A line without colons has an opcode and operands. -/
theorem classify_instruction (number : Nat) (raw : String) {l : Lexeme} {lexemes : List Lexeme}
    (hword : l.isWord = true) (hcolon : ∀ l ∈ lexemes, l.isColon = false)
    (hprintable : ∀ l' ∈ l :: lexemes, l'.isPrintable = true) :
    classify number raw false none (l :: lexemes) =
      .ok (l.token number raw .opcode ::
        lexemes.map fun l => l.token number raw l.operandKind) := by
  obtain ⟨hl, hprintable⟩ := List.forall_mem_cons.1 hprintable
  rw [isWord, Bool.and_eq_true, Bool.not_eq_true', Bool.not_eq_true'] at hword
  have hnext : lexemes.head?.any (·.isColon) = false := by
    cases lexemes with
    | nil => rfl
    | cons next rest => exact hcolon next List.mem_cons_self
  have hkind : l.kind false lexemes = .opcode := by
    rw [kind, hword.2, hl, hnext]
    rfl
  rw [classify_cons hword.1 hkind, Bool.false_or, beq_self_eq_true,
    classify_operands hcolon hprintable]
  rfl

end Lexeme
end CircuitRom
