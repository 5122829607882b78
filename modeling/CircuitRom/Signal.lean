import CircuitRom.Dictionary

/-!
# Signals and templates

An instruction is stored in the machine as a dictionary of signals: names of circuit signals with
signed 32-bit values.  A `Template` is such a dictionary with places left open for the value of
one operand.
-/

namespace CircuitRom

/-- Signal names with their values, in the order in which they are written. -/
abbrev Signals := Dictionary Int32

/-- What a template puts on one signal. -/
inductive Part
  /-- Always the same value. -/
  | fixed (value : Int32)
  /-- The value of the operand. -/
  | filled
deriving DecidableEq, Repr

namespace Part

/-- The value of a part when the operand has the given value. -/
def value (operand : Int32) : Part → Int32
  | fixed v => v
  | filled => operand

end Part

/-- Signal names with what each carries. -/
abbrev Template := List (String × Part)

namespace Template

/-- The signal names, as often as they are listed. -/
def keys (t : Template) : List String := t.map Prod.fst

/-- The signals of the template for an operand of the given value. -/
def fill (t : Template) (value : Int32) : Signals :=
  Dictionary.ofList (t.map fun entry => (entry.1, entry.2.value value))

end Template
end CircuitRom
