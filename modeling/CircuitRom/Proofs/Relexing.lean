import CircuitRom.Proofs.Delimiters
import CircuitRom.Proofs.Operands
import CircuitRom.Proofs.Scanning
import Mathlib.Data.List.TakeWhile

/-!
# Reading a listing

A listing separates words by spaces and leaves out the spaces next to marks only, so each
instruction is read from its line as it was: the opcode, then the operands and delimiters.
-/

namespace CircuitRom

/-! ## Instructions that can be read back -/

/-- The token is a delimiter with the text of one, or a register or literal. -/
def Token.IsOperand (t : Token) : Prop :=
  t.isDelimiter = true ∧ t.text ∈ delimiterTexts ∨ t.isDelimiter = false ∧ IsOperandWord t.text

/-- An operand is a mark of its own or a plain word. -/
theorem Token.IsOperand.text_cases {t : Token} (h : t.IsOperand) :
    (∃ c ∈ ['[', ']', ','], t.text.toList = [c]) ∨ Text.IsPlainWord t.text := by
  rcases h with ⟨-, hmark⟩ | ⟨-, hword⟩
  · left
    simp only [delimiterTexts, List.mem_cons, List.not_mem_nil, or_false] at hmark
    rcases hmark with h | h | h
    · exact ⟨'[', by decide, by rw [h]; rfl⟩
    · exact ⟨']', by decide, by rw [h]; rfl⟩
    · exact ⟨',', by decide, by rw [h]; rfl⟩
  · exact .inr hword.isPlainWord

theorem Token.IsOperand.isColon_eq_false {t : Token} {l : Lexeme} (h : t.IsOperand)
    (hl : l.chars = t.text.toList) : l.isColon = false := by
  rw [Lexeme.isColon, hl, beq_eq_false_iff_ne]
  intro hcolon
  rcases h.text_cases with ⟨c, hc, hchars⟩ | hword
  · rw [hchars, List.cons.injEq] at hcolon
    rw [hcolon.1] at hc
    exact absurd hc (by decide)
  · have hplain := hword.2 ':' (by rw [hcolon]; exact List.mem_cons_self)
    cases hplain

theorem Token.IsOperand.isPrintable {t : Token} {l : Lexeme} (h : t.IsOperand)
    (hl : l.chars = t.text.toList) : l.isPrintable = true := by
  rw [Lexeme.isPrintable, hl, List.all_eq_true]
  rcases h.text_cases with ⟨c, hc, hchars⟩ | hword
  · have hmarks : ['[', ']', ','].all (fun c => '!' ≤ c && c ≤ '~') = true := by decide
    rw [hchars]
    exact List.forall_mem_singleton.2 (List.all_eq_true.1 hmarks c hc)
  · exact fun c hc => Text.printable_of_isPlain (hword.2 c hc)

/-- A lexeme with the text of an operand is a delimiter exactly when the operand is one. -/
theorem Token.IsOperand.isDelimiter_eq {t : Token} {l : Lexeme} (h : t.IsOperand)
    (hl : l.chars = t.text.toList) : t.isDelimiter = l.isDelimiter := by
  have htext : String.ofList l.chars = t.text := by rw [hl, String.ofList_toList]
  rw [Bool.eq_iff_iff, Lexeme.isDelimiter_iff, htext]
  rcases h with ⟨hdelimiter, hmark⟩ | ⟨hdelimiter, hword⟩
  · exact iff_of_true hdelimiter hmark
  · refine iff_of_false (Bool.eq_false_iff.1 hdelimiter) fun hmark => ?_
    have hword : l.isWord = true :=
      Lexeme.isWord_of_isPlain (by rw [hl]; exact hword.isPlainWord.2)
    rw [← htext, ← Lexeme.isDelimiter_iff] at hmark
    rw [Lexeme.isWord, hmark, Bool.not_true, Bool.and_false] at hword
    cases hword

namespace Instruction

/-- The opcode is a mnemonic, and the operands are delimiters, registers and literals. -/
structure Readable (i : Instruction) : Prop where
  opcode : ∃ op, Opcode.ofName? i.opcode.text = some op
  operands : ∀ t ∈ i.operands, t.IsOperand

/-- An instruction that encodes can be read back. -/
theorem readable_of_encode {i : Instruction} {signals : Signals} (h : i.encode = .ok signals)
    (hmarked : Line.WellMarked i.operands) : i.Readable := by
  obtain ⟨hopcode, hwords⟩ := words_of_encode h
  refine ⟨hopcode, fun t ht => ?_⟩
  cases hdelimiter : t.isDelimiter with
  | true => exact .inl ⟨hdelimiter, (hmarked t ht).1 hdelimiter⟩
  | false => exact .inr ⟨hdelimiter, hwords t ht hdelimiter⟩

/-- The line of an instruction without labels. -/
def line (i : Instruction) : Line := i.opcode :: i.operands

/-- The second instruction is the first one as it is read from a line of its own. -/
structure ReadAs (i j : Instruction) : Prop where
  opcode : j.opcode.kind = .opcode ∧ j.opcode.text = i.opcode.text
  operands : List.Forall₂ (fun t u => t.Alike u ∧ (u.kind = .operand ∨ u.kind = .delimiter))
    i.operands j.operands

/-! ## The text of an instruction -/

theorem toList_operandText_cons (previous : Option String) (t : Token) (rest : List Token) :
    (operandText previous (t :: rest)).toList =
      (if t.text = "," ∨ t.text = "]" ∨ previous = some "[" then [] else [' ']) ++
        (t.text.toList ++ (operandText (some t.text) rest).toList) := by
  rw [operandText, String.toList_append, String.toList_append, List.append_assoc]
  split <;> rfl

/-- Unless a bracket has just been opened, what follows starts with a blank or a mark, so it does
not run into the word before it. -/
theorem stops_operandText {operands : List Token} {previous : Option String}
    (hprevious : previous ≠ some "[") : Lexeme.Stops (operandText previous operands).toList := by
  cases operands with
  | nil => exact fun c hc => absurd hc (by simp [operandText])
  | cons t rest =>
    rw [toList_operandText_cons]
    split
    · next htight =>
      rcases htight with h | h | h
      · rw [h]
        exact Lexeme.stops_cons _ (.inr rfl)
      · rw [h]
        exact Lexeme.stops_cons _ (.inr rfl)
      · exact absurd h hprevious
    · exact Lexeme.stops_cons _ (.inl rfl)

/-- The operands of an instruction are read one by one. -/
theorem scan_operandText {operands : List Token} (h : ∀ t ∈ operands, t.IsOperand) :
    ∀ (previous : Option String) (col : Nat),
      List.Forall₂ (fun t l => l.chars = t.text.toList) operands
        (Lexeme.scan col (operandText previous operands).toList) := by
  induction operands with
  | nil => exact fun _ _ => .nil
  | cons t rest ih =>
    intro previous col
    obtain ⟨ht, hrest⟩ := List.forall_mem_cons.1 h
    have hread : ∀ col, List.Forall₂ (fun t l => l.chars = t.text.toList) (t :: rest)
        (Lexeme.scan col (t.text.toList ++ (operandText (some t.text) rest).toList)) := by
      intro col
      rcases ht.text_cases with ⟨c, hc, hchars⟩ | hword
      · have hmarks : ['[', ']', ','].all Lexeme.isMark = true := by decide
        have hmark := List.all_eq_true.1 hmarks c hc
        rw [hchars, List.singleton_append, Lexeme.scan_of_isMark _ hmark]
        exact .cons hchars.symm (ih hrest _ _)
      · have hopen : some t.text ≠ some "[" := by
          intro hopen
          have hplain := hword.2 '[' (by rw [Option.some.inj hopen]; decide)
          cases hplain
        rw [Lexeme.scan_word hword.2 hword.1 (stops_operandText hopen)]
        exact .cons rfl (ih hrest _ _)
    rw [toList_operandText_cons]
    split
    · exact hread col
    · exact hread (col + 1)

theorem toList_text (i : Instruction) :
    i.text.toList = i.opcode.text.toList ++
      (List.replicate (5 - i.opcode.text.length) ' ' ++ (operandText none i.operands).toList) := by
  rw [text, Text.padRight, Text.spaces, String.toList_append, String.toList_append,
    String.toList_ofList, List.append_assoc]

/-- The words of an instruction are read one by one. -/
theorem scan_text {i : Instruction} (h : i.Readable) :
    ∃ l lexemes, Lexeme.scan 0 i.text.toList = l :: lexemes ∧
      l.chars = i.opcode.text.toList ∧
      List.Forall₂ (fun t l => l.chars = t.text.toList) i.operands lexemes := by
  obtain ⟨op, hop⟩ := h.opcode
  have hword := Opcode.isPlainWord hop
  have hstops : Lexeme.Stops (List.replicate (5 - i.opcode.text.length) ' ' ++
      (operandText none i.operands).toList) := by
    cases 5 - i.opcode.text.length with
    | zero => exact stops_operandText (by decide)
    | succ n => exact Lexeme.stops_cons _ (.inl rfl)
  rw [toList_text, Lexeme.scan_word hword.2 hword.1 hstops, Lexeme.scan_spaces]
  exact ⟨_, _, rfl, rfl, scan_operandText h.operands none _⟩

/-- The characters of a listing, apart from the ends of its lines. -/
def isListed (c : Char) : Bool := Text.isPlain c || c == ' ' || c == '[' || c == ']' || c == ','

theorem isListed_of_isOperand {t : Token} (h : t.IsOperand) :
    ∀ c ∈ t.text.toList, isListed c = true := by
  rcases h.text_cases with ⟨c, hc, hchars⟩ | hword
  · have hmarks : ['[', ']', ','].all isListed = true := by decide
    rw [hchars]
    exact List.forall_mem_singleton.2 (List.all_eq_true.1 hmarks c hc)
  · intro c hc
    rw [isListed, hword.2 c hc]
    rfl

theorem isListed_operandText {operands : List Token} (h : ∀ t ∈ operands, t.IsOperand) :
    ∀ previous, ∀ c ∈ (operandText previous operands).toList, isListed c = true := by
  induction operands with
  | nil => exact fun previous => List.forall_mem_nil _
  | cons t rest ih =>
    intro previous
    obtain ⟨ht, hrest⟩ := List.forall_mem_cons.1 h
    have hwords := List.forall_mem_append.2 ⟨isListed_of_isOperand ht, ih hrest (some t.text)⟩
    rw [toList_operandText_cons]
    split
    · exact hwords
    · exact List.forall_mem_cons.2 ⟨rfl, hwords⟩

/-- The text of a readable instruction has only characters that the lexer can take apart again. -/
theorem isListed_text {i : Instruction} (h : i.Readable) :
    ∀ c ∈ i.text.toList, isListed c = true := by
  obtain ⟨op, hop⟩ := h.opcode
  rw [toList_text]
  refine List.forall_mem_append.2 ⟨fun c hc => ?_, List.forall_mem_append.2 ⟨fun c hc => ?_, ?_⟩⟩
  · rw [isListed, (Opcode.isPlainWord hop).2 c hc]
    rfl
  · rw [List.eq_of_mem_replicate hc]
    rfl
  · exact isListed_operandText h.operands none

theorem ne_of_isListed {c d : Char} (h : isListed c = true) (hd : isListed d = false) : c ≠ d := by
  rintro rfl
  rw [h] at hd
  cases hd

/-- No listed character starts a comment, so the whole text is code. -/
theorem codePart_text {i : Instruction} (h : i.Readable) :
    codePart i.text.toList = i.text.toList := by
  refine List.takeWhile_eq_self_iff.2 fun c hc => ?_
  exact decide_eq_true (ne_of_isListed (isListed_text h c hc) rfl)

/-- An operand that is read back has the same text and is a delimiter as before. -/
theorem alike_token {t : Token} {l : Lexeme} (ht : t.IsOperand) (hl : l.chars = t.text.toList)
    (number : Nat) (raw : String) :
    t.Alike (l.token number raw l.operandKind) ∧
      (l.operandKind = .operand ∨ l.operandKind = .delimiter) := by
  have hdelimiter := ht.isDelimiter_eq hl
  have htext : t.text = String.ofList l.chars := by rw [hl, String.ofList_toList]
  cases hkind : l.isDelimiter with
  | true =>
    have hoperand : l.operandKind = .delimiter := by rw [Lexeme.operandKind, hkind]; rfl
    rw [hoperand]
    exact ⟨⟨htext, hdelimiter.trans hkind⟩, .inr rfl⟩
  | false =>
    have hoperand : l.operandKind = .operand := by rw [Lexeme.operandKind, hkind]; rfl
    rw [hoperand]
    exact ⟨⟨htext, hdelimiter.trans hkind⟩, .inl rfl⟩

/-- A line of a listing is read as the instruction that it shows. -/
theorem lexLine_text {i : Instruction} (h : i.Readable) (number : Nat) :
    ∃ j : Instruction, lexLine number i.text.toList = .ok j.line ∧ i.ReadAs j := by
  obtain ⟨l, lexemes, hscan, hl, hlexemes⟩ := scan_text h
  obtain ⟨op, hop⟩ := h.opcode
  have hplain : ∀ c ∈ l.chars, Text.isPlain c = true := by
    rw [hl]
    exact (Opcode.isPlainWord hop).2
  have hcolon : ∀ l ∈ lexemes, l.isColon = false := by
    intro l hl
    obtain ⟨t, ht, hchars⟩ := exists_of_mem_right hlexemes hl
    exact (h.operands t ht).isColon_eq_false hchars
  have hprintable : ∀ l' ∈ l :: lexemes, l'.isPrintable = true := by
    refine List.forall_mem_cons.2 ⟨?_, fun l hl => ?_⟩
    · exact List.all_eq_true.2 fun c hc => Text.printable_of_isPlain (hplain c hc)
    · obtain ⟨t, ht, hchars⟩ := exists_of_mem_right hlexemes hl
      exact (h.operands t ht).isPrintable hchars
  refine ⟨⟨l.token number i.text .opcode,
    lexemes.map fun l => l.token number i.text l.operandKind⟩, ?_, ⟨rfl, ?_⟩, ?_⟩
  · rw [lexLine, codePart_text h, hscan, String.ofList_toList]
    exact Lexeme.classify_instruction number i.text (Lexeme.isWord_of_isPlain hplain) hcolon
      hprintable
  · rw [Lexeme.token, hl, String.ofList_toList]
  · rw [List.forall₂_map_right_iff]
    exact ((List.forall₂_and_left _ _).2 ⟨h.operands, hlexemes⟩).imp
      fun t l ht => alike_token ht.1 ht.2 number i.text

end Instruction

/-! ## The text of a program -/

theorem Text.lines_append {line rest : List Char} (h : ∀ c ∈ line, c ≠ '\n' ∧ c ≠ '\r') :
    lines (line ++ '\n' :: rest) = line :: lines rest := by
  induction line with
  | nil => rfl
  | cons c line ih =>
    obtain ⟨hc, hline⟩ := List.forall_mem_cons.1 h
    rw [List.cons_append, lines, if_neg hc.1, if_neg fun hreturn => hc.2 hreturn.1, ih hline]

namespace Instruction

/-- The lines of a listing are the texts of its instructions. -/
theorem lines_listing {instructions : List Instruction} (h : ∀ i ∈ instructions, i.Readable) :
    Text.lines (listing instructions).toList = instructions.map (·.text.toList) := by
  rw [listing, String.toList_join, List.flatMap_map]
  induction instructions with
  | nil => rfl
  | cons i rest ih =>
    obtain ⟨hi, hrest⟩ := List.forall_mem_cons.1 h
    have hchars : ∀ c ∈ i.text.toList, c ≠ '\n' ∧ c ≠ '\r' := fun c hc =>
      ⟨ne_of_isListed (isListed_text hi c hc) rfl, ne_of_isListed (isListed_text hi c hc) rfl⟩
    rw [List.flatMap_cons, String.toList_append, List.append_assoc, List.map_cons, ← ih hrest]
    exact Text.lines_append hchars

/-- A listing is read as the instructions that it shows. -/
theorem tokenize_listing {instructions : List Instruction} (h : ∀ i ∈ instructions, i.Readable) :
    ∃ again : List Instruction,
      tokenize (listing instructions) = .ok (again.map line) ∧
      List.Forall₂ ReadAs instructions again := by
  have hread : ∀ number, ∃ again : List Instruction,
      ((instructions.map (·.text.toList)).zipIdx number).mapM (fun l => lexLine l.2 l.1) =
        .ok (again.map line) ∧ List.Forall₂ ReadAs instructions again := by
    induction instructions with
    | nil => exact fun number => ⟨[], rfl, .nil⟩
    | cons i rest ih =>
      intro number
      obtain ⟨hi, hrest⟩ := List.forall_mem_cons.1 h
      obtain ⟨j, hj, hij⟩ := lexLine_text hi number
      obtain ⟨again, hagain, hforall⟩ := ih hrest (number + 1)
      refine ⟨j :: again, ?_, .cons hij hforall⟩
      rw [List.map_cons, List.zipIdx_cons, List.mapM_cons, hj, hagain]
      rfl
  obtain ⟨again, hagain, hforall⟩ := hread 1
  refine ⟨again, ?_, hforall⟩
  -- no line of a listing is empty
  have hfilter : (again.map line).filter (!·.isEmpty) = again.map line := by
    rw [List.filter_eq_self]
    intro l hl
    obtain ⟨j, -, rfl⟩ := List.mem_map.1 hl
    rfl
  rw [tokenize, lines_listing h, hagain]
  exact congrArg Except.ok hfilter

end Instruction
end CircuitRom
