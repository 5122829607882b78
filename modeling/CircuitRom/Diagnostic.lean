import CircuitRom.Token

/-!
# Diagnostics

Assembly stops at the first fault.  A `Diagnostic` states its `Cause` and the place it was found,
with notes on other places that explain it.
-/

namespace CircuitRom

/-- The two classes of faults. -/
inductive Category
  /-- Malformed source text. -/
  | syntactic
  /-- Well-formed lines whose macros or labels cannot be laid out. -/
  | structural
deriving DecidableEq, Repr

/-- How a category is shown. -/
def Category.name : Category → String
  | syntactic => "syntax"
  | structural => "structural"

/-- What is wrong with a program. -/
inductive Cause
  /-- A colon at the start of a line. -/
  | labelMissing
  /-- A colon after something that cannot be a label. -/
  | labelInvalid (text : String)
  /-- A word with characters outside printable ASCII. -/
  | wordUnknown (text : String)
  /-- A macro declared inside another. -/
  | macroNested
  /-- A declaration without exactly a name and a parameter count. -/
  | macroHeader
  /-- A second macro of one name. -/
  | macroRepeated (name : String)
  /-- A parameter count that is no count. -/
  | parameterCount (text : String)
  /-- An end of a macro without its start. -/
  | macroUnopened
  /-- A macro without its end. -/
  | macroUnclosed (name : String)
  /-- A symbolic label in a macro's body. -/
  | symbolInMacro (text : String)
  /-- A macro whose body names the macro itself. -/
  | macroSelfReference (name : String)
  /-- Macros that name each other in a circle; the path starts and ends with one name. -/
  | macroCycle (path : List String)
  /-- A call with the wrong number of arguments. -/
  | argumentCount (name : String) (expected found : Nat)
  /-- A placeholder that is not `$` and a count. -/
  | placeholderInvalid (text : String)
  /-- A placeholder for an argument that no call has. -/
  | placeholderRange (text name : String) (parameters : Nat)
  /-- Calls are left after the allowed rounds of expansion. -/
  | expansionUnsettled (rounds : Nat)
  /-- A definition without exactly a key and a value. -/
  | definitionMalformed
  /-- A second symbolic label of one name. -/
  | labelRepeated (name : String)
  /-- No numeric label at or before the reference. -/
  | labelNotBefore (digit : Char)
  /-- No numeric label after the reference. -/
  | labelNotAfter (digit : Char)
  /-- Numeric labels of one digit whose addresses descend. -/
  | labelOrder (digit : Char) (earlier later : Nat)
  /-- A word that is no mnemonic. -/
  | opcodeUnknown (text : String)
  /-- The wrong number of operands. -/
  | operandCount (opcode : String) (expected found : Nat)
  /-- A word that is no register. -/
  | registerUnknown (text : String)
  /-- A word that is no number. -/
  | immediateInvalid (text : String)
  /-- A number that does not fit in 32 bits. -/
  | immediateRange (text : String)
  /-- A word that is neither register nor number. -/
  | operandInvalid (text : String)
  /-- A bracket opened inside another. -/
  | bracketNested
  /-- A bracket closed that was not opened. -/
  | bracketUnopened
  /-- A bracket without content. -/
  | bracketEmpty
  /-- A bracket that is not closed. -/
  | bracketUnclosed
  /-- A bracket with more than two words. -/
  | bracketOverfull
  /-- An operand that has to stand in a bracket. -/
  | bracketExpected
  /-- A bracket where none may stand. -/
  | bracketUnexpected
deriving DecidableEq, Repr

namespace Cause

/-- The class of a cause. -/
def category : Cause → Category
  | macroSelfReference _ | macroCycle _ | labelOrder _ _ _ | macroUnclosed _
  | expansionUnsettled _ => .structural
  | _ => .syntactic

/-- The text shown for a cause. -/
def message : Cause → String
  | labelMissing => "Missing label before `:`"
  | labelInvalid text => s!"Invalid label `{text}`"
  | wordUnknown text => s!"Unrecognized token `{text}`"
  | macroNested => "Can't define a macro within another macro"
  | macroHeader =>
    "Macro declaration needs a name and a parameter count, e.g. `#macro name 2`"
  | macroRepeated name => s!"Macro `{name}` is already defined"
  | parameterCount text => s!"Parameter count must be a non-negative integer, found `{text}`"
  | macroUnopened => "`#endm` without a matching `#macro`"
  | macroUnclosed name => s!"Missing `#endm` for macro `{name}`"
  | symbolInMacro text => s!"Only numeric labels are allowed inside a macro, found `{text}`"
  | macroSelfReference name => s!"Macro `{name}` references itself"
  | macroCycle path => "Cyclic macro dependency: " ++ " => ".intercalate path
  | argumentCount name expected found =>
    s!"Macro `{name}` takes {expected} argument(s), found {found}"
  | placeholderInvalid text => s!"Invalid macro parameter `{text}`, expected `$N`"
  | placeholderRange text name parameters =>
    s!"Macro parameter `{text}` out of range, `{name}` takes {parameters} argument(s)"
  | expansionUnsettled rounds => s!"Macro expansion did not settle after {rounds} rounds"
  | definitionMalformed => "Definition needs a key and a value, e.g. `#def key value`"
  | labelRepeated name => s!"Label `{name}` was previously defined"
  | labelNotBefore digit => s!"No backward label `{digit}` found"
  | labelNotAfter digit => s!"No forward label `{digit}` found"
  | labelOrder digit earlier later =>
    s!"Numeric labels `{digit}` out of address order: {earlier} before {later}"
  | opcodeUnknown text => s!"Unknown opcode `{text}`"
  | operandCount opcode expected found =>
    s!"Incorrect number of operands for `{opcode}`: expected {expected}, found {found}"
  | registerUnknown text => s!"Unknown register `{text}`"
  | immediateInvalid text => s!"Invalid number `{text}`, must be on format [-][0x|0b]nnnn"
  | immediateRange text => s!"Immediate `{text}` does not fit in 32 bits"
  | operandInvalid text => s!"Expected register or immediate, found `{text}`"
  | bracketNested => "Can't open a bracket within another bracket"
  | bracketUnopened => "Closing bracket without opening bracket"
  | bracketEmpty => "Empty bracket"
  | bracketUnclosed => "Did not close bracket"
  | bracketOverfull => "Bracket holds at most a register and an immediate"
  | bracketExpected => "Expected a bracketed operand, e.g. `[R1, 2]`"
  | bracketUnexpected => "Bracketed operand not allowed here"

end Cause

/-- A remark on a place that explains a fault. -/
structure Note where
  /-- The remark. -/
  text : String
  /-- The place it is about. -/
  site : Site
deriving DecidableEq, Repr

/-- A fault that stops the assembly. -/
structure Diagnostic where
  /-- What is wrong. -/
  cause : Cause
  /-- Where it was found. -/
  site : Site
  /-- Places that explain it. -/
  notes : List Note := []
deriving DecidableEq, Repr

namespace Diagnostic

/-- A fault at a token.  A token that was copied from a macro's body gets a note on that place. -/
def atToken (cause : Cause) (token : Token) : Diagnostic where
  cause := cause
  site := token.site
  notes := token.origin.toList.map (Note.mk "expanded from macro body")

/-- The fault with one more note. -/
def withNote (d : Diagnostic) (text : String) (site : Site) : Diagnostic :=
  { d with notes := d.notes ++ [⟨text, site⟩] }

end Diagnostic

/-- Labels that no operand refers to. -/
structure UnusedLabels where
  /-- The symbolic ones, with the places of their declaration. -/
  symbolic : List (String × Site)
  /-- The numeric ones, with the places of their declaration. -/
  numeric : List (Char × Site)
deriving DecidableEq, Repr

namespace UnusedLabels

/-- Is every label used? -/
def isEmpty (u : UnusedLabels) : Bool := u.symbolic.isEmpty && u.numeric.isEmpty

/-- One label as the warning lists it. -/
def item (name : String) (site : Site) : String :=
  "`" ++ name ++ "` (line " ++ toString site.line ++ ")"

/-- The text of the warning. -/
def message (u : UnusedLabels) : String :=
  "Unused label(s): " ++ ", ".intercalate
    (u.symbolic.map (fun label => item label.1 label.2) ++
      u.numeric.map fun label => item label.1.toString label.2)

end UnusedLabels
end CircuitRom
