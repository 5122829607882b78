import CircuitRom.Blueprint.Entity.Read
import CircuitRom.Blueprint.Fault

/-!
# Rows

A row of the memory holds one instruction.  Its *counter* adds one to the address it is given and
hands it on to the next row, its *lamp* brings in the address that is asked for, its *storage* puts
out the signals of the instruction, and its *decider* lets them pass if the two addresses agree.
-/

namespace CircuitRom

/-- What belongs to one row, by the part it plays there. -/
structure Row (α : Type) where
  /-- Counts the rows. -/
  counter : α
  /-- Brings in the address that is asked for. -/
  lamp : α
  /-- Holds the instruction. -/
  storage : α
  /-- Compares the addresses. -/
  decider : α
deriving DecidableEq, Repr

namespace Row

/-- Do the same to all four parts of a row. -/
def map {α β : Type} (f : α → β) (row : Row α) : Row β :=
  ⟨f row.counter, f row.lamp, f row.storage, f row.decider⟩

/-- The four parts in order. -/
def toList {α : Type} (row : Row α) : List α :=
  [row.counter, row.lamp, row.storage, row.decider]

/-- The names of the four entities. -/
def names : Row String :=
  ⟨"arithmetic-combinator", "small-lamp", "constant-combinator", "decider-combinator"⟩

/-! ## Templates -/

/-- The first of the entities with a name. -/
def take (entities : List Entity) (name : String) : Except BlueprintFault Entity :=
  match entities.find? (·.name == name) with
  | none => .error (.missingEntity name)
  | some entity => .ok entity

/-- The row template that four entities make up. -/
def ofEntities (entities : List Entity) : Except BlueprintFault (Row Entity) :=
  if entities.length ≠ 4 then .error (.entityCount entities.length)
  else do
    let counter ← take entities names.counter
    let lamp ← take entities names.lamp
    let storage ← take entities names.storage
    let decider ← take entities names.decider
    if storage.filters.isEmpty then return ⟨counter, lamp, storage, decider⟩
    else .error (.prefilled names.storage)

/-- Read the entities of a row template. -/
def readEntities? (json : String) : Option (List Entity) :=
  match (Source.parse? json).bind (Source.fields? ["entities"]) with
  | some [some entities] => entities.list? Entity.read?
  | _ => none

/-- The row template written in a JSON text. -/
def ofJson (json : String) : Except BlueprintFault (Row Entity) :=
  match readEntities? json with
  | none => .error .malformed
  | some entities => ofEntities entities

/-! ## The standard row -/

/-- A virtual signal in a setting. -/
def virtualSignal (name : String) : Json :=
  .object [("name", .string name), ("type", .string "virtual")]

/-- The signal that carries the address of a row. -/
def rowAddress : String := "signal-I"

/-- The signal that carries the address that is asked for. -/
def wantedAddress : String := "signal-P"

/-- The counter adds one to the address of the row before. -/
def countRows : Json :=
  .object [("constant", .int 1), ("first_signal", virtualSignal rowAddress),
    ("operation", .string "+"), ("output_signal", virtualSignal rowAddress)]

/-- The lamp is lit in the row that is asked for. -/
def showRow : Json :=
  .object [("comparator", .string "="), ("first_signal", virtualSignal rowAddress),
    ("second_signal", virtualSignal wantedAddress)]

/-- The decider lets everything pass in the row that is asked for. -/
def passRow : Json :=
  .object [("comparator", .string "="), ("copy_count_from_input", .bool true),
    ("first_signal", virtualSignal rowAddress),
    ("output_signal", virtualSignal "signal-everything"),
    ("second_signal", virtualSignal wantedAddress)]

/-- The number `n / 2`. -/
def halves (n : Int) : Binary64 :=
  let x := (Binary64.ofRatio? n.natAbs 2).getD .zero
  if n < 0 then x.neg else x

/-- The row template of the program memory. -/
def standard : Row Entity where
  counter :=
    { number := 1, name := names.counter, position := ⟨halves (-5), .zero⟩, direction := some 2
      control := some { settings := [("arithmetic_conditions", countRows)] } }
  lamp :=
    { number := 2, name := names.lamp, position := ⟨.ofInt (-1), .zero⟩
      control := some { settings := [("circuit_condition", showRow)] } }
  storage :=
    { number := 3, name := names.storage, position := ⟨.zero, .zero⟩, direction := some 2
      control := some { filters := some [] } }
  decider :=
    { number := 4, name := names.decider, position := ⟨halves 3, .zero⟩, direction := some 2
      control := some { settings := [("decider_conditions", passRow)] } }

end Row
end CircuitRom
