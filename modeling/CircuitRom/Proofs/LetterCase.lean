import CircuitRom.Proofs.Correspondence
import CircuitRom.Proofs.Literals
import CircuitRom.Proofs.Relocation

/-!
# Letters of either case

Mnemonics, the names of registers, the marks of radices and the digits above nine may be written in
small letters or in capitals, and brackets have no case.  Each of them is compared on its own.  That
an instruction as a whole does not depend on the case of its letters takes more: a text that is no
register has to stay none, and a number that is malformed or too large has to stay so, as the next
reading of the text is tried only when the one before has failed.
-/

namespace CircuitRom

open Text

/-! ## Texts that differ in case -/

namespace Text

variable {a b : String}

theorem sameLetters_congr (h : foldCase a = foldCase b) (name : String) :
    sameLetters name a = sameLetters name b := by
  rw [sameLetters, sameLetters, h]

/-- A character without case is spelled in one way. -/
theorem foldCase_eq_singleton_iff {text : String} {c : Char} (hlower : c.toLower = c)
    (hupper : c.toUpper = c) : foldCase text = [c] ↔ text = String.singleton c := by
  constructor
  · intro h
    obtain ⟨d, hd, hc⟩ := List.map_eq_singleton_iff.1 h
    have hsame : d = c := (eq_or_eq_toUpper_of_toLower hc).elim id (·.trans hupper)
    rw [← String.toList_inj, hd, hsame, String.toList_singleton]
  · rintro rfl
    rw [foldCase, String.toList_singleton, List.map_singleton, hlower]

theorem eq_singleton_congr {c : Char} (hlower : c.toLower = c) (hupper : c.toUpper = c)
    (h : foldCase a = foldCase b) : a = String.singleton c ↔ b = String.singleton c := by
  rw [← foldCase_eq_singleton_iff hlower hupper, h, foldCase_eq_singleton_iff hlower hupper]

end Text

/-- Mnemonics are looked up without regard to case. -/
theorem Opcode.ofName?_congr {a b : String} (h : foldCase a = foldCase b) :
    ofName? a = ofName? b := by
  simp only [ofName?, sameLetters_congr h]

theorem Register.ofName?_congr {a b : String} (h : foldCase a = foldCase b) :
    ofName? a = ofName? b := by
  simp only [ofName?, sameLetters_congr h]

/-- Numbers are read alike in either case, including the prefix and the digits above nine. -/
theorem Literal.parse_congr {a b : String} (h : foldCase a = foldCase b) : parse a = parse b := by
  rw [parse, parse, value?_congr h]

/-! ## Instructions that differ in case -/

/-- The tokens are of one kind and have the same text up to the case of ASCII letters. -/
structure Token.SameLetters (t u : Token) : Prop where
  /-- They play the same part. -/
  kind : t.kind = u.kind
  /-- They have the same letters. -/
  letters : sameLetters t.text u.text = true

instance (t u : Token) : Decidable (t.SameLetters u) :=
  decidable_of_iff (t.kind = u.kind ∧ sameLetters t.text u.text = true)
    ⟨fun h => ⟨h.1, h.2⟩, fun h => ⟨h.kind, h.letters⟩⟩

namespace Instruction

/-- The opcode and the operands of an instruction. -/
def tokens (i : Instruction) : List Token := i.opcode :: i.operands

/-- The instructions have the same letters at each of their tokens. -/
def SameLetters (i j : Instruction) : Prop := List.Forall₂ Token.SameLetters i.tokens j.tokens

instance (i j : Instruction) : Decidable (i.SameLetters j) :=
  decidable_of_iff (i.tokens.length = j.tokens.length ∧
      ∀ pair ∈ i.tokens.zip j.tokens, pair.1.SameLetters pair.2)
    ⟨fun h => List.forall₂_iff_zip.2 ⟨h.1, fun hmem => h.2 _ hmem⟩,
      fun h => ⟨h.length_eq, fun _ hmem => (List.forall₂_iff_zip.1 h).2 hmem⟩⟩

end Instruction

/-- The faults are of one sort, and they were found at tokens of one position. -/
def Diagnostic.SamePosition (tokens tokens' : List Token) (d e : Diagnostic) : Prop :=
  d.cause.ctorIdx = e.cause.ctorIdx ∧
  ∃ (n : Nat) (t u : Token), tokens[n]? = some t ∧ tokens'[n]? = some u ∧
    d = .atToken d.cause t ∧ e = .atToken e.cause u

namespace Token

variable {tokens tokens' : List Token} {t u : Token} {n : Nat}

/-- Faults at the tokens of one position are at one position. -/
theorem failAlike_of_getElem? (ht : tokens[n]? = some t) (hu : tokens'[n]? = some u) :
    t.FailAlike (Diagnostic.SamePosition tokens tokens') u := by
  intro cause hcause
  exact ⟨hcause _ _, n, t, u, ht, hu, rfl, rfl⟩

theorem SameLetters.corresponds {E : Diagnostic → Diagnostic → Prop} (h : t.SameLetters u)
    (hfails : t.FailAlike E u) : t.Corresponds E u where
  isDelimiter := by rw [isDelimiter, isDelimiter, h.kind]
  opens := eq_singleton_congr (c := '[') rfl rfl (sameLetters_iff.1 h.letters)
  closes := eq_singleton_congr (c := ']') rfl rfl (sameLetters_iff.1 h.letters)
  names := Register.ofName?_congr (sameLetters_iff.1 h.letters)
  writes := Literal.parse_congr (sameLetters_iff.1 h.letters)
  fails := hfails

end Token

namespace Instruction

/-- Instructions that differ in case only encode alike, or fail at the same position. -/
theorem SameLetters.concur_encode {i j : Instruction} (h : i.SameLetters j) :
    Concur (Diagnostic.SamePosition i.tokens j.tokens) Eq i.encode j.encode := by
  obtain ⟨hopcode, hoperands⟩ := List.forall₂_cons.1 h
  refine Instruction.concur_encode (Opcode.ofName?_congr (sameLetters_iff.1 hopcode.letters))
    (Token.failAlike_of_getElem? (n := 0) rfl rfl) ?_
  obtain ⟨hlength, hget⟩ := List.forall₂_iff_get.1 hoperands
  refine List.forall₂_iff_get.2 ⟨hlength, fun n hi hj => (hget n hi hj).corresponds ?_⟩
  -- The opcode stands before the operands, so each of them is one place further on.
  exact Token.failAlike_of_getElem? (n := n + 1) (List.getElem?_eq_getElem hi)
    (List.getElem?_eq_getElem hj)

/-- **Encoding ignores the case of letters.**  Two instructions whose tokens are of the same kinds
and have the same letters, position by position, both encode, to the same signals in the same order,
or both fail, with faults of one sort at tokens of one position. -/
theorem encode_ignores_letter_case {i j : Instruction} (h : i.SameLetters j) :
    (∃ signals, i.encode = .ok signals ∧ j.encode = .ok signals) ∨
    ∃ d e, i.encode = .error d ∧ j.encode = .error e ∧
      Diagnostic.SamePosition i.tokens j.tokens d e := by
  generalize hx : i.encode = x
  generalize hy : j.encode = y
  have hconcur := h.concur_encode
  rw [hx, hy] at hconcur
  cases hconcur with
  | ok hsame => exact .inl ⟨_, rfl, congrArg _ hsame.symm⟩
  | error hfault => exact .inr ⟨_, _, rfl, rfl, hfault⟩

/-- A store in small letters and in capitals, and one whose offset is no number. -/
theorem store_ignores_letter_case :
    (∃ i ∈ (Program.written (Program.linesOf "store r3, [sp 0x1f]")).head?,
      ∃ j ∈ (Program.written (Program.linesOf "STORE R3, [Sp 0X1F]")).head?,
      i.SameLetters j ∧ ∃ signals, i.encode = .ok signals ∧ j.encode = .ok signals) ∧
    ∃ i ∈ (Program.written (Program.linesOf "store r3, [sp 0x1g]")).head?,
      ∃ j ∈ (Program.written (Program.linesOf "   Store R3,[SP 0X1G]")).head?,
      i.SameLetters j ∧ ∃ d e, i.encode = .error d ∧ j.encode = .error e ∧
        Diagnostic.SamePosition i.tokens j.tokens d e := by
  have haccepted : ∃ i ∈ (Program.written (Program.linesOf "store r3, [sp 0x1f]")).head?,
      ∃ j ∈ (Program.written (Program.linesOf "STORE R3, [Sp 0X1F]")).head?,
      i.SameLetters j ∧ i.encode.isOk = true := by
    decide +kernel
  have hrefused : ∃ i ∈ (Program.written (Program.linesOf "store r3, [sp 0x1g]")).head?,
      ∃ j ∈ (Program.written (Program.linesOf "   Store R3,[SP 0X1G]")).head?,
      i.SameLetters j ∧ i.encode.isOk = false := by
    decide +kernel
  constructor
  · obtain ⟨i, hi, j, hj, hsame, hok⟩ := haccepted
    refine ⟨i, hi, j, hj, hsame, (encode_ignores_letter_case hsame).resolve_right ?_⟩
    rintro ⟨d, -, herror, -⟩
    rw [herror] at hok
    cases hok
  · obtain ⟨i, hi, j, hj, hsame, hok⟩ := hrefused
    refine ⟨i, hi, j, hj, hsame, (encode_ignores_letter_case hsame).resolve_left ?_⟩
    rintro ⟨signals, hencode, -⟩
    rw [hencode] at hok
    cases hok

end Instruction
end CircuitRom
