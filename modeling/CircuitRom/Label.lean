import CircuitRom.Diagnostic
import CircuitRom.Dictionary
import CircuitRom.Update

/-!
# Labels

Symbolic labels are known everywhere and have one declaration.  Numeric labels are single digits
that may be declared many times; a reference is to the nearest one before or after it.
-/

namespace CircuitRom

/-- Which way a reference to a numeric label looks. -/
inductive Direction
  /-- To the nearest label at or before the instruction. -/
  | back
  /-- To the nearest label after the instruction. -/
  | forward
deriving DecidableEq, Repr

/-- A reference such as `3b` or `7f`. -/
def numericReference? (text : String) : Option (Char × Direction) :=
  match text.toList with
  | [digit, 'b'] => if digit.isDigit then some (digit, .back) else none
  | [digit, 'f'] => if digit.isDigit then some (digit, .forward) else none
  | _ => none

/-- A symbolic label. -/
structure Symbol where
  /-- The address of the instruction after it. -/
  address : Nat
  /-- Where it was declared. -/
  site : Site
  /-- Does an operand refer to it? -/
  used : Bool := false
deriving DecidableEq, Repr

/-- One declaration of a numeric label. -/
structure Occurrence where
  /-- The digit. -/
  digit : Char
  /-- The address of the instruction after it. -/
  address : Nat
  /-- Where it was declared. -/
  site : Site
  /-- Does an operand refer to it? -/
  used : Bool := false
deriving DecidableEq, Repr

/-- The labels of a program in the order of their declaration. -/
structure Labels where
  /-- The symbolic labels by name. -/
  symbols : Dictionary Symbol := Dictionary.empty
  /-- The declarations of numeric labels. -/
  locals : List Occurrence := []
deriving DecidableEq

namespace Labels

/-- The number of declarations. -/
def size (l : Labels) : Nat := l.symbols.size + l.locals.length

/-- The address of a symbolic label. -/
def address? (l : Labels) (name : String) : Option Nat := (l.symbols.find? name).map (·.address)

/-- Declare a label at an address. -/
def declare (label : Token) (address : Nat) : Update Labels Diagnostic Unit := do
  if label.kind = .numeric then
    let digit := label.text.toList.head?.getD '0'
    modify fun l => { l with locals := l.locals ++ [⟨digit, address, label.site, false⟩] }
  else
    match (← get).symbols.find? label.text with
    | some earlier =>
      throw ((Diagnostic.atToken (.labelRepeated label.text) label).withNote
        "first defined here" earlier.site)
    | none =>
      modify fun l =>
        { l with symbols := l.symbols.insert label.text ⟨address, label.site, false⟩ }

/-- What declaring a label comes to: a symbolic label that is there already is at fault, and then
the labels are as they were. -/
theorem outcome_declare (label : Token) (address : Nat) (l : Labels) :
    (declare label address).outcome l =
      if label.kind = .numeric then
        (.ok (), { l with locals := l.locals ++
          [⟨label.text.toList.head?.getD '0', address, label.site, false⟩] })
      else
        match l.symbols.find? label.text with
        | some earlier =>
          (.error ((Diagnostic.atToken (.labelRepeated label.text) label).withNote
            "first defined here" earlier.site), l)
        | none =>
          (.ok (),
            { l with symbols := l.symbols.insert label.text ⟨address, label.site, false⟩ }) := by
  rw [declare]
  split
  · exact Update.outcome_modify _ _
  · rw [Update.outcome_bind, Update.outcome_get]
    dsimp only
    cases l.symbols.find? label.text with
    | some earlier => exact Update.outcome_throw _ _
    | none => exact Update.outcome_modify _ _

/-- The labels with one more declared at an address. -/
def define (l : Labels) (label : Token) (address : Nat) : Except Diagnostic Labels :=
  ((declare label address).attempt l).map (·.2)

theorem define_eq (l : Labels) (label : Token) (address : Nat) :
    l.define label address =
      if label.kind = .numeric then
        .ok { l with locals := l.locals ++
          [⟨label.text.toList.head?.getD '0', address, label.site, false⟩] }
      else
        match l.symbols.find? label.text with
        | some earlier =>
          .error ((Diagnostic.atToken (.labelRepeated label.text) label).withNote
            "first defined here" earlier.site)
        | none =>
          .ok { l with symbols := l.symbols.insert label.text ⟨address, label.site, false⟩ } := by
  rw [define, Update.attempt, outcome_declare]
  by_cases hkind : label.kind = .numeric
  · rw [if_pos hkind, if_pos hkind]
    rfl
  · rw [if_neg hkind, if_neg hkind]
    cases l.symbols.find? label.text <;> rfl

/-- Declare several labels at one address. -/
def defineAll (l : Labels) (address : Nat) : List Token → Except Diagnostic Labels
  | [] => .ok l
  | label :: rest =>
    match l.define label address with
    | .error e => .error e
    | .ok l => l.defineAll address rest

/-- The address of a symbolic label, which is then used. -/
def useSymbol (l : Labels) (name : String) : Option (Nat × Labels) :=
  (l.symbols.find? name).map fun symbol =>
    (symbol.address, { l with symbols := l.symbols.modify name fun s => { s with used := true } })

/-! ## References to numeric labels -/

/-- The declarations of a digit: their positions among all numeric labels, and their addresses. -/
def occurrences (l : Labels) (digit : Char) : List (Nat × Nat) :=
  (l.locals.zipIdx.filter (·.1.digit == digit)).map fun entry => (entry.2, entry.1.address)

/-- The first two neighbours of which the later is smaller. -/
def firstDescent : List Nat → Option (Nat × Nat)
  | a :: b :: rest => if b < a then some (a, b) else firstDescent (b :: rest)
  | _ => none

/-- The declaration that a reference from the given address means: its position and address. -/
def target? (occurrences : List (Nat × Nat)) (address : Nat) : Direction → Option (Nat × Nat)
  | .back => (occurrences.filter (·.2 ≤ address)).getLast?
  | .forward => occurrences.find? (address < ·.2)

/-- The cause of a reference that means no declaration. -/
def notFound (digit : Char) : Direction → Cause
  | .back => .labelNotBefore digit
  | .forward => .labelNotAfter digit

/-- Find the address that a numeric reference from the given address means.  Its declaration is then
used. -/
def seek (digit : Char) (direction : Direction) (address : Nat) : Update Labels Cause Nat := do
  let found := (← get).occurrences digit
  match firstDescent (found.map (·.2)) with
  | some (earlier, later) => throw (.labelOrder digit earlier later)
  | none =>
    match target? found address direction with
    | none => throw (notFound digit direction)
    | some (position, target) =>
      modify fun l =>
        { l with locals := l.locals.modify position fun o => { o with used := true } }
      return target

/-- What a search comes to: the labels change only if it finds a declaration. -/
theorem outcome_seek (digit : Char) (direction : Direction) (address : Nat) (l : Labels) :
    (seek digit direction address).outcome l =
      match firstDescent ((l.occurrences digit).map (·.2)) with
      | some (earlier, later) => (.error (.labelOrder digit earlier later), l)
      | none =>
        match target? (l.occurrences digit) address direction with
        | none => (.error (notFound digit direction), l)
        | some (position, target) =>
          (.ok target,
            { l with locals := l.locals.modify position fun o => { o with used := true } }) := by
  rw [seek, Update.outcome_bind, Update.outcome_get]
  dsimp only
  cases firstDescent ((l.occurrences digit).map (·.2)) with
  | some pair => exact Update.outcome_throw _ _
  | none =>
    cases target? (l.occurrences digit) address direction with
    | none => exact Update.outcome_throw _ _
    | some found =>
      rw [Update.outcome_bind, Update.outcome_modify]
      exact Update.outcome_pure _ _

/-- The address that a numeric reference means, and the labels with its declaration used. -/
def useNumeric (l : Labels) (digit : Char) (direction : Direction) (address : Nat) :
    Except Cause (Nat × Labels) :=
  (seek digit direction address).attempt l

theorem useNumeric_eq (l : Labels) (digit : Char) (direction : Direction) (address : Nat) :
    l.useNumeric digit direction address =
      match firstDescent ((l.occurrences digit).map (·.2)) with
      | some (earlier, later) => .error (.labelOrder digit earlier later)
      | none =>
        match target? (l.occurrences digit) address direction with
        | none => .error (notFound digit direction)
        | some (position, target) =>
          .ok (target,
            { l with locals := l.locals.modify position fun o => { o with used := true } }) := by
  rw [useNumeric, Update.attempt, outcome_seek]
  cases firstDescent ((l.occurrences digit).map (·.2)) with
  | some pair => rfl
  | none => cases target? (l.occurrences digit) address direction <;> rfl

/-! ## Labels without a reference -/

/-- The labels that no operand refers to. -/
def unusedLabels (l : Labels) : UnusedLabels where
  symbolic := (l.symbols.entries.filter (!·.2.used)).map fun entry => (entry.1, entry.2.site)
  numeric := (l.locals.filter (!·.used)).map fun o => (o.digit, o.site)

/-- The labels that no operand refers to, if there are any. -/
def unused (l : Labels) : Option UnusedLabels :=
  if l.unusedLabels.isEmpty then none else some l.unusedLabels

end Labels
end CircuitRom
