import CircuitRom.Proofs.Cutting
import CircuitRom.Proofs.Faults
import CircuitRom.Proofs.LineGrammar
import CircuitRom.Proofs.Resolution

/-!
# The digits of numeric labels

The lexer makes a numeric label out of a single digit.  From then on its kind is fixed, but its text
passes through two replacements.  Expansion leaves it alone, because a digit is no placeholder.
Definitions do not: they replace whatever token has the text of their key.  A label is recorded
under the first character of the text that it then has.  So one that no definition replaces is found
under its own digit, and one that is replaced by a text without a digit in front is found under no
digit at all.
-/

namespace CircuitRom

/-! ## Where a token's text was written -/

/-- The place in a macro's body that the token was copied from, or its own place. -/
def Token.source (t : Token) : Site := t.origin.getD t.site

/-- The digit stands in the source text where the token was written. -/
structure Token.WrittenAs (code : String) (t : Token) (d : Char) : Prop where
  isDigit : d.isDigit = true
  isIn : t.source.IsIn code
  shown : t.source.raw.toList[t.source.col]? = some d

namespace Lexeme

variable {number : Nat} {raw : String}

end Lexeme

/-- An instruction at an index finds the address under the text of a numeric reference. -/
def Labels.Finds (l : Labels) (text : String) (index address : Nat) : Prop :=
  ∃ digit direction labels, numericReference? text = some (digit, direction) ∧
    l.useNumeric digit direction index = .ok (address, labels)

/-- The label at an address is found under a digit: from its own address backward, and from the
address before it forward. -/
def Labels.FindsUnder (l : Labels) (digit : Char) (address : Nat) : Prop :=
  l.Finds (String.ofList [digit, 'b']) address address ∧
    (0 < address → l.Finds (String.ofList [digit, 'f']) (address - 1) address)

namespace Direction

end Direction

namespace Program

variable {lines : List Line} {program : Program}

end Program

/-! ## Definitions -/

/-- What is recorded for a numeric label of a source text. -/
structure Labels.Records (l : Labels) (code : String) (o : Occurrence) (b : Binding) : Prop where
  address : o.address = b.address
  site : o.site = b.label.site
  /-- It is recorded under the first character of its text. -/
  digit : b.label.text.toList.head? = some o.digit
  /-- If its text still is the digit that was written for it, that is the digit. -/
  kept : ∃ d, b.label.WrittenAs code d ∧ (b.label.text = String.ofList [d] → o.digit = d)
  /-- Under a digit it is found. -/
  found : o.digit.isDigit = true → l.FindsUnder o.digit o.address
  /-- Any other character is named by no reference. -/
  lost : o.digit.isDigit = false →
    ∀ text direction, numericReference? text ≠ some (o.digit, direction)

end CircuitRom
