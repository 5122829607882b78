import CircuitRom.Label
import CircuitRom.Literal
import CircuitRom.Opcode
import CircuitRom.Register
import CircuitRom.Token.Lexer
import Mathlib.Data.List.Basic
import Mathlib.Tactic.Tauto

/-!
# The words of instructions

Mnemonics, registers and literals are written with ASCII letters, digits and the minus sign.  Such
a word stands for itself in a source line: no character of it is blank, a mark or the start of a
comment, and no directive is written that way.  An operand that names a register or writes a number
is never a reference to a numeric label.
-/

namespace CircuitRom
namespace Text

/-! ## Characters -/

/-- Is the character an ASCII letter, a digit or a minus sign? -/
def isPlain (c : Char) : Bool := c.isAlphanum || c == '-'

/-- Plain characters are digits, letters and the minus sign. -/
theorem isPlain_iff {c : Char} :
    isPlain c = true ↔ (48 ≤ c.toNat ∧ c.toNat ≤ 57) ∨ (65 ≤ c.toNat ∧ c.toNat ≤ 90) ∨
      (97 ≤ c.toNat ∧ c.toNat ≤ 122) ∨ c.toNat = 45 := by
  have hminus : c = '-' ↔ c.toNat = 45 :=
    ⟨fun h => by rw [h]; rfl, fun h => Char.ext (UInt32.toNat.inj h)⟩
  have hranges : isPlain c = (decide (c.val ≥ 'A'.val ∧ c.val ≤ 'Z'.val) ||
      c.val ≥ 'a'.val && c.val ≤ 'z'.val || c.val ≥ '0'.val && c.val ≤ '9'.val || c == '-') := rfl
  simp only [hranges, Bool.or_eq_true, Bool.and_eq_true, decide_eq_true_eq, beq_iff_eq, hminus,
    ge_iff_le, UInt32.le_iff_toNat_le, Char.toNat]
  simp only [show 'A'.val.toNat = 65 from rfl, show 'Z'.val.toNat = 90 from rfl,
    show 'a'.val.toNat = 97 from rfl, show 'z'.val.toNat = 122 from rfl,
    show '0'.val.toNat = 48 from rfl, show '9'.val.toNat = 57 from rfl]
  tauto

theorem isBlank_of_isPlain {c : Char} (h : isPlain c = true) : isBlank c = false := by
  rw [isPlain_iff] at h
  rw [isBlank, List.any_eq_false]
  simp only [blankRanges, List.forall_mem_cons, Bool.and_eq_true, decide_eq_true_eq]
  simp
  omega

theorem ne_of_isPlain {c d : Char} (h : isPlain c = true) (hd : isPlain d = false) : c ≠ d := by
  rintro rfl
  rw [h] at hd
  cases hd

theorem isMark_of_isPlain {c : Char} (h : isPlain c = true) : Lexeme.isMark c = false := by
  simp only [Lexeme.isMark, Bool.or_eq_false_iff, beq_eq_false_iff_ne]
  exact ⟨⟨⟨ne_of_isPlain h rfl, ne_of_isPlain h rfl⟩, ne_of_isPlain h rfl⟩, ne_of_isPlain h rfl⟩

theorem printable_of_isPlain {c : Char} (h : isPlain c = true) : ('!' ≤ c && c ≤ '~') = true := by
  rw [isPlain_iff] at h
  rw [Bool.and_eq_true, decide_eq_true_eq, decide_eq_true_eq, Char.le_def, Char.le_def,
    UInt32.le_iff_toNat_le, UInt32.le_iff_toNat_le]
  simp only [Char.toNat] at h
  simp only [show '!'.val.toNat = 33 from rfl, show '~'.val.toNat = 126 from rfl]
  omega

@[simp] theorem isPlain_toLower (c : Char) : isPlain c.toLower = isPlain c := by
  rw [Bool.eq_iff_iff, isPlain_iff, isPlain_iff]
  unfold Char.toLower
  split
  · next h =>
    rw [ge_iff_le, UInt32.le_iff_toNat_le, UInt32.le_iff_toNat_le] at h
    simp only [show 'A'.val.toNat = 65 from rfl, show 'Z'.val.toNat = 90 from rfl] at h
    simp only [Char.toNat, UInt32.toNat_add, show ('a'.val - 'A'.val).toNat = 32 from rfl]
    omega
  · rfl

/-! ## Words -/

/-- A word of one or more plain characters. -/
def IsPlainWord (text : String) : Prop := text.toList ≠ [] ∧ ∀ c ∈ text.toList, isPlain c = true

theorem isPlainWord_of_foldCase {text : String} (hne : foldCase text ≠ [])
    (h : ∀ c ∈ foldCase text, isPlain c = true) : IsPlainWord text := by
  refine ⟨fun hnil => hne (by rw [foldCase, hnil]; rfl), fun c hc => ?_⟩
  rw [← isPlain_toLower]
  exact h _ (List.mem_map_of_mem hc)

/-- A word that differs from a plain one in the case of letters only is plain. -/
theorem isPlainWord_of_sameLetters {name text : String} (hne : foldCase name ≠ [])
    (hname : (foldCase name).all isPlain = true) (h : sameLetters name text = true) :
    IsPlainWord text := by
  rw [sameLetters_iff] at h
  rw [h] at hne hname
  exact isPlainWord_of_foldCase hne (List.all_eq_true.1 hname)

/-- A plain word is not a directive: these start with a number sign. -/
theorem sameLetters_eq_false {text directive : String} (h : IsPlainWord text)
    (hdirective : (foldCase directive).all isPlain = false) :
    sameLetters text directive = false := by
  rw [Bool.eq_false_iff, Ne, sameLetters_iff]
  intro heq
  rw [← heq, List.all_eq_false] at hdirective
  obtain ⟨c, hc, hplain⟩ := hdirective
  obtain ⟨d, hd, rfl⟩ := List.mem_map.1 hc
  rw [isPlain_toLower] at hplain
  exact hplain (h.2 d hd)

/-! ## Digits -/

theorem isPlain_of_digit? {radix d : Nat} {c : Char} (h : digit? radix c = some d) :
    isPlain c = true := by
  obtain ⟨hsome, -⟩ := Option.filter_eq_some_iff.1 h
  rw [isPlain_iff]
  simp only [Char.le_def, UInt32.le_iff_toNat_le, show '0'.val.toNat = 48 from rfl,
    show '9'.val.toNat = 57 from rfl, show 'a'.val.toNat = 97 from rfl,
    show 'f'.val.toNat = 102 from rfl, show 'A'.val.toNat = 65 from rfl,
    show 'F'.val.toNat = 70 from rfl] at hsome
  rw [Char.toNat]
  split_ifs at hsome <;> omega

theorem isPlain_of_digitsFrom? {radix n : Nat} :
    ∀ {cs : List Char} {start : Nat}, digitsFrom? radix start cs = some n →
      ∀ c ∈ cs, isPlain c = true
  | [], _, _ => by simp
  | c :: rest, start, h => by
    rw [digitsFrom?] at h
    split at h
    · cases h
    · next d hd =>
      rw [List.forall_mem_cons]
      exact ⟨isPlain_of_digit? hd, isPlain_of_digitsFrom? h⟩

/-- Numbers are written in plain characters. -/
theorem isPlain_of_number? {radix n : Nat} {cs : List Char} (h : number? radix cs = some n) :
    cs ≠ [] ∧ ∀ c ∈ cs, isPlain c = true := by
  rw [number?] at h
  split at h
  · cases h
  · next hne => exact ⟨by simpa using hne, isPlain_of_digitsFrom? h⟩

end Text

/-! ## Mnemonics, registers and literals -/

open Text

/-- Mnemonics are plain words. -/
theorem Opcode.isPlainWord {text : String} {op : Opcode} (h : Opcode.ofName? text = some op) :
    IsPlainWord text := by
  have hletters := List.find?_some h
  refine isPlainWord_of_sameLetters ?_ ?_ hletters
  · cases op <;> decide
  · cases op <;> decide

theorem Register.isPlainWord {text : String} {r : Register} (h : Register.ofName? text = some r) :
    IsPlainWord text := by
  have hnames : ∀ r ∈ Register.all, ∀ name ∈ r.names,
      foldCase name ≠ [] ∧ (foldCase name).all isPlain = true := by decide
  have hmatch := List.find?_some h
  obtain ⟨name, hname, hletters⟩ := List.any_eq_true.1 hmatch
  obtain ⟨hne, hplain⟩ := hnames r (List.mem_of_find?_eq_some h) name hname
  exact isPlainWord_of_sameLetters hne hplain hletters

namespace Literal

theorem isPlain_of_splitRadix {cs : List Char}
    (h : (splitRadix cs).2 ≠ [] ∧ ∀ c ∈ (splitRadix cs).2, isPlain c = true) :
    cs ≠ [] ∧ ∀ c ∈ cs, isPlain c = true := by
  unfold splitRadix at h
  split at h
  · simpa [isPlain] using h.2
  · simpa [isPlain] using h.2
  · exact h

theorem isPlain_of_splitSign {cs : List Char}
    (h : (splitSign cs).2 ≠ [] ∧ ∀ c ∈ (splitSign cs).2, isPlain c = true) :
    cs ≠ [] ∧ ∀ c ∈ cs, isPlain c = true := by
  unfold splitSign at h
  split at h
  · simpa [isPlain] using h.2
  · exact h

theorem value?_of_parse {text : String} {word : Int32} (h : parse text = .ok word) :
    ∃ n, value? text = some n := by
  rw [parse] at h
  split at h
  · cases h
  · next n hn => exact ⟨n, hn⟩

/-- A literal is the sign, the mark of the radix and the digits, and all of these are plain. -/
theorem isPlainWord {text : String} {word : Int32} (h : parse text = .ok word) :
    IsPlainWord text := by
  obtain ⟨n, hn⟩ := value?_of_parse h
  simp only [value?, Option.map_eq_some_iff, Option.bind_eq_bind, Option.bind_eq_some_iff] at hn
  obtain ⟨-, ⟨m, hm, -⟩, -⟩ := hn
  have hbody := isPlain_of_splitRadix (isPlain_of_number? hm)
  refine isPlain_of_splitSign ⟨fun hnil => hbody.1 (by rw [hnil]; rfl), fun c hc => ?_⟩
  rw [← isPlain_toLower]
  exact hbody.2 _ (List.mem_map_of_mem hc)

end Literal

/-! ## Operands -/

/-- A text that an operand may have: the name of a register or a literal. -/
def IsOperandWord (text : String) : Prop :=
  (∃ r, Register.ofName? text = some r) ∨ ∃ word, Literal.parse text = .ok word

/-- Registers and numbers are plain words, so a listing can be read back. -/
theorem IsOperandWord.isPlainWord {text : String} (h : IsOperandWord text) :
    IsPlainWord text := by
  rcases h with ⟨r, hr⟩ | ⟨word, hword⟩
  · exact Register.isPlainWord hr
  · exact Literal.isPlainWord hword

/-- The digits that name numeric labels. -/
def digits : List Char := ['0', '1', '2', '3', '4', '5', '6', '7', '8', '9']

/-- The texts of references to numeric labels. -/
def references : List String :=
  digits.flatMap fun digit => [String.ofList [digit, 'b'], String.ofList [digit, 'f']]

theorem mem_digits {c : Char} (h : c.isDigit = true) : c ∈ digits := by
  have hrange : 48 ≤ c.toNat ∧ c.toNat ≤ 57 := by
    simpa [Char.isDigit, UInt32.le_iff_toNat_le] using h
  have hall : ∀ n ∈ List.range' 48 10, Char.ofNat n ∈ digits := by decide
  rw [← Char.ofNat_toNat c]
  exact hall c.toNat (by rw [List.mem_range'_1]; omega)

theorem mem_references {text : String} {reference : Char × Direction}
    (h : numericReference? text = some reference) : text ∈ references := by
  have hmem : ∀ digit : Char, digit.isDigit = true → ∀ way : Char, way = 'b' ∨ way = 'f' →
      text.toList = [digit, way] → text ∈ references := by
    intro digit hdigit way hway htext
    rw [← String.ofList_toList (s := text), htext, references, List.mem_flatMap]
    refine ⟨digit, mem_digits hdigit, ?_⟩
    rcases hway with rfl | rfl <;> simp
  unfold numericReference? at h
  split at h
  · next digit htext =>
    split at h
    · next hdigit => exact hmem digit hdigit 'b' (.inl rfl) htext
    · cases h
  · next digit htext =>
    split at h
    · next hdigit => exact hmem digit hdigit 'f' (.inr rfl) htext
    · cases h
  · cases h

/-- An operand that names a register or writes a number refers to no numeric label. -/
theorem IsOperandWord.numericReference?_eq_none {text : String} (h : IsOperandWord text) :
    numericReference? text = none := by
  have hrefused : ∀ text ∈ references,
      Register.ofName? text = none ∧ Literal.value? text = none := by decide
  rw [Option.eq_none_iff_forall_ne_some]
  intro reference href
  obtain ⟨hregister, hliteral⟩ := hrefused text (mem_references href)
  rcases h with ⟨r, hr⟩ | ⟨word, hword⟩
  · rw [hregister] at hr
    cases hr
  · obtain ⟨n, hn⟩ := Literal.value?_of_parse hword
    rw [hliteral] at hn
    cases hn

end CircuitRom
