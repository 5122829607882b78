import CircuitRom.Assembly
import CircuitRom.Proofs.Call
import CircuitRom.Proofs.Declaration
import CircuitRom.Proofs.Inlining
import CircuitRom.Proofs.Renaming
import CircuitRom.Proofs.Words

/-!
# Delimiters keep their texts

Three texts are delimiters: the brackets and the comma.  A token of a source line is a delimiter
exactly when it has one of these texts.  Later stages give tokens new texts, those of arguments, of
definitions and of addresses, but none of them makes a delimiter out of a word or a word out of a
delimiter.  So an instruction shows by its texts alone how its operands are grouped.
-/

namespace CircuitRom

/-- The texts of delimiters. -/
def delimiterTexts : List String := ["[", "]", ","]

/-- The token is a delimiter exactly when it has the text of one. -/
def Token.WellMarked (t : Token) : Prop := t.isDelimiter = true ↔ t.text ∈ delimiterTexts

theorem Token.WellMarked.not_mem {t : Token} (h : t.WellMarked) (hword : t.isDelimiter = false) :
    t.text ∉ delimiterTexts :=
  fun hmark => Bool.eq_false_iff.1 hword (h.2 hmark)

/-- All tokens of the line are delimiters exactly when they have the text of one. -/
def Line.WellMarked (line : Line) : Prop := ∀ t ∈ line, t.WellMarked

/-! ## Source lines -/

namespace Lexeme

variable {number : Nat} {raw : String}

theorem isDelimiter_iff {l : Lexeme} :
    l.isDelimiter = true ↔ String.ofList l.chars ∈ delimiterTexts := by
  have htext : ∀ cs : List Char, String.ofList l.chars = String.ofList cs ↔ l.chars = cs :=
    fun cs => ⟨fun h => by simpa using congrArg String.toList h, fun h => by rw [h]⟩
  simp only [isDelimiter, delimiterTexts, List.mem_cons, List.not_mem_nil, or_false,
    Bool.or_eq_true, beq_iff_eq, or_assoc, ← htext]

theorem labelKind_ne_delimiter (l : Lexeme) : l.labelKind ≠ .delimiter := by
  rw [labelKind]
  split
  · split <;> exact Kind.noConfusion
  · exact Kind.noConfusion

/-- A lexeme becomes a delimiter because of what it is, not because of where it stands. -/
theorem kind_eq_delimiter_iff {l : Lexeme} {named : Bool} {rest : List Lexeme} :
    l.kind named rest = .delimiter ↔ l.isDelimiter = true := by
  rw [kind]
  split_ifs with h
  · exact iff_of_true rfl h
  · exact iff_of_false not_false h
  · exact iff_of_false not_false h
  · exact iff_of_false l.labelKind_ne_delimiter h
  · exact iff_of_false not_false h

theorem isDelimiter_of_isColon {l : Lexeme} (h : l.isColon = true) : l.isDelimiter = false := by
  rw [isColon, beq_iff_eq] at h
  rw [isDelimiter, h]
  rfl

theorem wellMarked_classify {lexemes : List Lexeme} :
    ∀ {named : Bool} {previous : Option Token} {line : Line},
      classify number raw named previous lexemes = .ok line → line.WellMarked := by
  induction lexemes with
  | nil =>
    intro named previous line h
    cases h
    exact List.forall_mem_nil _
  | cons l rest ih =>
    intro named previous line h
    rw [classify] at h
    split at h
    · next hcolon =>
      split at h
      · obtain ⟨tail, htail, rfl⟩ := map_eq_ok.1 h
        refine List.forall_mem_cons.2 ⟨iff_of_false Bool.noConfusion fun hmark => ?_, ih htail⟩
        exact Bool.eq_false_iff.1 (isDelimiter_of_isColon hcolon) (isDelimiter_iff.2 hmark)
      · cases h
    · obtain ⟨tail, htail, rfl⟩ := map_eq_ok.1 h
      refine List.forall_mem_cons.2 ⟨?_, ih htail⟩
      rw [Token.WellMarked, Token.isDelimiter, beq_iff_eq]
      exact kind_eq_delimiter_iff.trans isDelimiter_iff

end Lexeme

/-- The lexer marks exactly the delimiters. -/
theorem wellMarked_tokenize {code : String} {lines : List Line} (h : tokenize code = .ok lines) :
    ∀ line ∈ lines, line.WellMarked := by
  obtain ⟨all, hall, h⟩ := bind_eq_ok.1 h
  cases h
  intro line hline
  obtain ⟨source, -, hlex⟩ :=
    exists_of_mem_right (mapM_eq_ok.1 hall) (List.mem_of_mem_filter hline)
  exact Lexeme.wellMarked_classify hlex

/-! ## Macros -/

/-- An argument is never a delimiter, and neither is the placeholder that it replaces. -/
theorem Call.wellMarked_instantiate {call : Call} {t t' : Token}
    (h : call.instantiate t = .ok t') (ht : t.WellMarked)
    (harguments : ∀ a ∈ call.arguments, a.text ∉ delimiterTexts) : t'.WellMarked := by
  rcases instantiate_eq_ok.1 h with ⟨digits, n, argument, htext, -, hargument, rfl⟩ | ⟨-, rfl⟩
  · have hplaceholder : t.text ∉ delimiterTexts := by
      intro hmark
      have hheads : ∀ text ∈ delimiterTexts, text.toList.head? ≠ some '$' := by decide
      exact hheads t.text hmark (by rw [htext]; rfl)
    have hargument := harguments argument (List.mem_of_getElem? hargument)
    exact iff_of_false (fun hkind => hplaceholder (ht.1 hkind)) hargument
  · exact ht

namespace MacroTable

variable {table : MacroTable} {lines : List Line}

theorem mem_of_mem_strip {line : Line} (h : line ∈ table.strip lines) : line ∈ lines := by
  rw [strip] at h
  generalize table.values = macros at h
  induction macros with
  | nil => exact h
  | cons m rest ih =>
    rw [List.foldr_cons, removeBlock, List.mem_append] at h
    rcases h with h | h
    · exact ih (List.mem_of_mem_take h)
    · exact ih (List.mem_of_mem_drop h)

/-- What copying gives the tokens of a body, and what the tokens of the line have, the tokens that
replace a call have. -/
theorem forall_token_expand {p q : Token → Prop} {line : Line} {call : Call}
    (hcopy : ∀ (call : Call) t t', p call.name →
      (∀ a ∈ call.arguments, p a ∧ a.isDelimiter = false) → q t →
      call.instantiate t = .ok t' → p t')
    (hbodies : ∀ m ∈ table.values, ∀ l ∈ m.body, ∀ t ∈ l, q t)
    (hcall : table.call? line = some call) (h : call.expand = .ok lines)
    (hline : ∀ t ∈ line, p t) : ∀ l ∈ lines, ∀ t ∈ l, p t := by
  obtain ⟨name, rest, m, hstatement, -, hm, rfl⟩ := call?_eq_some_iff.1 hcall
  have hmem : ∀ t ∈ name :: rest, t ∈ line := by
    rw [← hstatement]
    exact fun t ht => List.mem_of_mem_drop ht
  -- the arguments are tokens of the line, and none of them is a delimiter
  have harguments : ∀ a ∈ rest.filter (!·.isDelimiter), p a ∧ a.isDelimiter = false := by
    intro a ha
    obtain ⟨ha, hword⟩ := List.mem_filter.1 ha
    exact ⟨hline a (hmem a (List.mem_cons_of_mem _ ha)), by simpa using hword⟩
  obtain ⟨-, body, hbody, rfl⟩ := Call.expand_eq_ok.1 h
  have hcopies : ∀ l ∈ body, ∀ t ∈ l, p t := by
    intro l hl t' ht'
    obtain ⟨source, hsource, hcopied⟩ := exists_of_mem_right hbody hl
    obtain ⟨t, ht, hinstantiate⟩ := exists_of_mem_right hcopied ht'
    have hbodyToken := hbodies m (mem_values_of_find? hm).1 source hsource t ht
    exact hcopy _ t t' (hline name (hmem name List.mem_cons_self)) harguments hbodyToken hinstantiate
  split
  · exact hcopies
  · exact List.forall_mem_cons.2 ⟨fun t ht => hline t (List.mem_of_mem_take ht), hcopies⟩

end MacroTable

/-- What all tokens of a program have, and copying keeps, all tokens have after expansion.  A
property that copies lose is weakened to one that they have. -/
theorem forall_token_expandMacros {p q : Token → Prop} {lines out : List Line}
    (hweaken : ∀ t, q t → p t)
    (hcopy : ∀ (call : Call) t t', (∀ a ∈ call.arguments, p a ∧ a.isDelimiter = false) → q t →
      call.instantiate t = .ok t' → p t')
    (h : expandMacros lines = .ok out) (hlines : ∀ line ∈ lines, ∀ t ∈ line, q t) :
    ∀ line ∈ out, ∀ t ∈ line, p t := by
  obtain ⟨table, hcollect, h⟩ := bind_eq_ok.1 h
  obtain ⟨-, -, h⟩ := bind_eq_ok.1 h
  have hbodies := MacroTable.body_of_collect hlines hcollect
  refine MacroTable.forall_of_settle
    (fun _ _ _ hcall hexpand => MacroTable.forall_token_expand
      (fun call t t' _ => hcopy call t t') hbodies hcall hexpand) h ?_
  exact fun line hline t ht => hweaken t (hlines line (MacroTable.mem_of_mem_strip hline) t ht)

/-- Expansion keeps the marks: an argument is no delimiter, so neither is what replaces a
placeholder. -/
theorem wellMarked_expandMacros {lines out : List Line} (h : expandMacros lines = .ok out)
    (hlines : ∀ line ∈ lines, line.WellMarked) : ∀ line ∈ out, line.WellMarked := by
  refine forall_token_expandMacros (fun _ ht => ht) (fun call t t' harguments ht hcopy => ?_) h
    hlines
  refine Call.wellMarked_instantiate hcopy ht fun a ha => ?_
  obtain ⟨hmarked, hword⟩ := harguments a ha
  exact hmarked.not_mem hword

/-! ## Definitions -/

namespace Definition

/-- No delimiter is defined, and none is the value of a definition. -/
def WordsOnly (defs : Dictionary String) : Prop :=
  ∀ entry ∈ defs.entries, entry.1 ∉ delimiterTexts ∧ entry.2 ∉ delimiterTexts

variable {defs : Dictionary String}

/-- Renaming keeps the marks, because definitions are about words. -/
theorem wellMarked_rename {t : Token} (hdefs : WordsOnly defs) (ht : t.WellMarked) :
    (rename defs t).WellMarked := by
  have hdelimiter : (rename defs t).isDelimiter = t.isDelimiter := rfl
  rw [Token.WellMarked, hdelimiter]
  cases hfind : defs.find? t.text with
  | none =>
    rw [rename, hfind]
    exact ht
  | some value =>
    obtain ⟨hkey, hvalue⟩ := hdefs (t.text, value) (Dictionary.mem_of_find? hfind)
    rw [rename, hfind]
    exact iff_of_false (fun h => hkey (ht.1 h)) hvalue

/-- The definitions so far are the state of the run: each step renames with them and keeps them
free of delimiters. -/
theorem wellMarked_substituteFrom {lines : List Line} :
    ∀ {defs : Dictionary String} {out : List Line}, substituteFrom defs lines = .ok out →
      WordsOnly defs → (∀ line ∈ lines, line.WellMarked) → ∀ line ∈ out, line.WellMarked := by
  induction lines with
  | nil =>
    intro defs out h _ _
    cases h
    exact List.forall_mem_nil _
  | cons line rest ih =>
    intro defs out h hdefs hlines
    obtain ⟨hline, hrest⟩ := List.forall_mem_cons.1 hlines
    have hrenamed : Line.WellMarked (line.map (rename defs)) := by
      intro t' ht'
      obtain ⟨t, ht, rfl⟩ := List.mem_map.1 ht'
      exact wellMarked_rename hdefs (hline t ht)
    rcases substituteFrom_cons_eq_ok h with
      ⟨head, key, value, hmap, -, hkey, hvalue, hrest'⟩ | ⟨-, tail, hrest', rfl⟩
    · rw [hmap] at hrenamed
      have hkey := (hrenamed key (by simp)).not_mem hkey
      have hvalue := (hrenamed value (by simp)).not_mem hvalue
      exact ih hrest' (Dictionary.forall_mem_put ⟨hkey, hvalue⟩ hdefs) hrest
    · exact List.forall_mem_cons.2 ⟨hrenamed, ih hrest' hdefs hrest⟩

end Definition

/-! ## Labels -/

/-- An address in decimal is not a delimiter. -/
theorem toString_not_mem_delimiterTexts (n : Nat) : toString n ∉ delimiterTexts := by
  intro hmark
  have hmarks : delimiterTexts.all (fun text => text.toList.all (!·.isDigit)) = true := by decide
  obtain ⟨c, hc⟩ := List.exists_mem_of_ne_nil _ (Nat.toDigits_ne_nil (n := n) (b := 10))
  have hdigit := Nat.isDigit_of_mem_toDigits (by decide) (by decide) hc
  rw [Nat.toString_eq_ofList_toDigits] at hmark
  have hchars := List.all_eq_true.1 hmarks _ hmark
  have hother := List.all_eq_true.1 hchars c (by rwa [String.toList_ofList])
  rw [hdigit] at hother
  cases hother

namespace Program

variable {labels : Labels} {address : Nat}

/-- All operands of the instructions are delimiters exactly when they have the text of one. -/
def WellMarked (program : Program) : Prop :=
  ∀ i ∈ program.instructions, Line.WellMarked i.operands

/-- The operands of an instruction are tokens of its line. -/
theorem wellMarked_layOutFrom {lines : List Line} :
    ∀ {labels : Labels} {address : Nat} {program : Program},
      layOutFrom labels address lines = .ok program → (∀ line ∈ lines, line.WellMarked) →
      program.WellMarked := by
  induction lines with
  | nil =>
    intro labels address program h _
    cases h
    exact List.forall_mem_nil _
  | cons line rest ih =>
    intro labels address program h hlines
    obtain ⟨hline, hrest⟩ := List.forall_mem_cons.1 hlines
    rw [layOutFrom] at h
    split at h
    · cases h
    · split at h
      · cases h
      · split at h
        · exact ih h hrest
        · next opcode operands hstatement =>
          obtain ⟨tail, htail, rfl⟩ := map_eq_ok.1 h
          refine List.forall_mem_cons.2 ⟨fun t ht => ?_, ih htail hrest⟩
          have hmem : t ∈ line.statement := by
            rw [hstatement]
            exact List.mem_cons_of_mem _ ht
          exact hline t (List.mem_of_mem_drop hmem)

/-- A token is kept, or it is an operand and takes an address for its text. -/
theorem resolveToken_cases {t : Token} {result : Token × Labels}
    (h : resolveToken labels address t = .ok result) :
    result.1 = t ∨ t.kind = .operand ∧ ∃ n : Nat, result.1 = { t with text := toString n } := by
  rw [resolveToken] at h
  split at h
  · cases h
    exact .inl rfl
  · next hkind =>
    rw [ne_eq, not_not] at hkind
    split at h
    · cases h
      exact .inr ⟨hkind, _, rfl⟩
    · split at h
      · cases h
        exact .inl rfl
      · split at h
        · cases h
        · cases h
          exact .inr ⟨hkind, _, rfl⟩

/-- An operand that becomes an address does not turn into a delimiter. -/
theorem wellMarked_resolveToken {t : Token} {result : Token × Labels}
    (h : resolveToken labels address t = .ok result) (ht : t.WellMarked) :
    result.1.WellMarked := by
  rcases resolveToken_cases h with hsame | ⟨hkind, n, haddress⟩
  · rw [hsame]
    exact ht
  · rw [haddress]
    refine iff_of_false ?_ (toString_not_mem_delimiterTexts n)
    rw [Token.isDelimiter, hkind]
    exact Bool.noConfusion

theorem wellMarked_resolveTokens {tokens : List Token} :
    ∀ {labels : Labels} {result : List Token × Labels},
      resolveTokens labels address tokens = .ok result → Line.WellMarked tokens →
      Line.WellMarked result.1 := by
  induction tokens with
  | nil =>
    intro labels result h _
    cases h
    exact List.forall_mem_nil _
  | cons t rest ih =>
    intro labels result h htokens
    obtain ⟨ht, hrest⟩ := List.forall_mem_cons.1 htokens
    rw [resolveTokens] at h
    split at h
    · cases h
    · next token labels htoken =>
      obtain ⟨tail, htail, rfl⟩ := map_eq_ok.1 h
      exact List.forall_mem_cons.2 ⟨wellMarked_resolveToken htoken ht, ih htail hrest⟩

theorem wellMarked_resolveFrom {instructions : List Instruction} :
    ∀ {labels : Labels} {address : Nat} {program : Program},
      resolveFrom labels address instructions = .ok program →
      (∀ i ∈ instructions, Line.WellMarked i.operands) → program.WellMarked := by
  induction instructions with
  | nil =>
    intro labels address program h _
    cases h
    exact List.forall_mem_nil _
  | cons i rest ih =>
    intro labels address program h hinstructions
    obtain ⟨hi, hrest⟩ := List.forall_mem_cons.1 hinstructions
    rw [resolveFrom] at h
    split at h
    · cases h
    · next operands labels hoperands =>
      obtain ⟨tail, htail, rfl⟩ := map_eq_ok.1 h
      exact List.forall_mem_cons.2 ⟨wellMarked_resolveTokens hoperands hi, ih htail hrest⟩

theorem wellMarked_resolve {lines : List Line} {program : Program}
    (h : resolve lines = .ok program) (hlines : ∀ line ∈ lines, line.WellMarked) :
    program.WellMarked := by
  rw [resolve] at h
  split at h
  · cases h
  · next laidOut hlayOut =>
    exact wellMarked_resolveFrom h (wellMarked_layOutFrom hlayOut hlines)

theorem wellMarked_finish {program : Program} (h : program.WellMarked) (options : Options) :
    (program.finish options).WellMarked := by
  rw [finish]
  split
  · -- the halt has no operands
    exact List.forall_mem_append.2 ⟨h, List.forall_mem_singleton.2 (List.forall_mem_nil _)⟩
  · exact h

end Program

/-- An operand of an instruction is a delimiter exactly when it has the text of one. -/
theorem wellMarked_preprocess {code : String} {options : Options} {program : Program}
    (h : preprocess code options = .ok program) : program.WellMarked := by
  rw [preprocess_eq] at h
  obtain ⟨source, hsource, h⟩ := bind_eq_ok.1 h
  obtain ⟨expanded, hexpanded, h⟩ := bind_eq_ok.1 h
  obtain ⟨substituted, hsubstituted, h⟩ := bind_eq_ok.1 h
  obtain ⟨resolved, hresolved, h⟩ := bind_eq_ok.1 h
  cases h
  have hexpanded := wellMarked_expandMacros hexpanded (wellMarked_tokenize hsource)
  have hsubstituted := Definition.wellMarked_substituteFrom hsubstituted
    (List.forall_mem_nil _) hexpanded
  exact Program.wellMarked_finish (Program.wellMarked_resolve hresolved hsubstituted) options

end CircuitRom
