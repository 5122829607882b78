import CircuitRom.Blueprint.Entity
import CircuitRom.Json.Source

/-!
# Entities from JSON

Reading what a blueprint document says of its entities.  A record is an object, in which members
with other names are passed over, or a sequence that gives the fields in order.
-/

namespace CircuitRom
namespace Source

/-! ## Records -/

/-- The part that an object gives for a name; `none` if the name is given twice. -/
def field? (members : List (String × Source)) (name : String) : Option (Option Source) :=
  match members.filter (·.1 == name) with
  | [] => some none
  | [member] => some (some member.2)
  | _ => none

/-- The members of an object whose names are all readable. -/
def named? (members : List (Option String × Source)) : Option (List (String × Source)) :=
  members.mapM fun (name, value) => name.map (·, value)

/-- The parts that a record gives for its fields, each of which may be left out. -/
def fields? (names : List String) : Source → Option (List (Option Source))
  | .object members => (named? members).bind fun members => names.mapM (field? members)
  | .array items =>
    if items.length ≤ names.length then
      some (items.map some ++ List.replicate (names.length - items.length) none)
    else none
  | _ => none

/-- Read a field that may be left out or be null. -/
def readOptional? {α : Type} (read : Source → Option α) : Option Source → Option (Option α)
  | none => some none
  | some .null => some none
  | some source => (read source).map some

/-! ## Scalars -/

/-- A string. -/
def text? : Source → Option String
  | .string text => text
  | _ => none

/-- A whole number from `low` up to `high`. -/
def int? (low high : Int) : Source → Option Int
  | .number numeral =>
    match numeral.number? with
    | some (.int i) => if low ≤ i ∧ i ≤ high then some i else none
    | _ => none
  | _ => none

/-- A number of 8 bits. -/
def byte? (source : Source) : Option Nat := (source.int? 0 255).map Int.toNat

/-- A number of 32 bits. -/
def word? (source : Source) : Option Nat := (source.int? 0 4294967295).map Int.toNat

/-- A number of 32 bits with its sign. -/
def count? (source : Source) : Option Int32 :=
  (source.int? (-2147483648) 2147483647).map Int32.ofInt

/-- A number of either kind. -/
def real? : Source → Option Binary64
  | .number numeral => numeral.number?.map Number.toBinary64
  | _ => none

/-- A sequence. -/
def list? {α : Type} (read : Source → Option α) : Source → Option (List α)
  | .array items => items.mapM read
  | _ => none

end Source

/-! ## Wires -/

/-- Read a far end of a wire. -/
def Wire.read? (source : Source) : Option Wire :=
  match source.fields? ["entity_id", "circuit_id"] with
  | some [some entity, some circuit] => do return ⟨← entity.word?, ← circuit.byte?⟩
  | _ => none

/-- Read the wires of one colour into a bundle; the last list of a colour counts. -/
def Bundle.readMember? (bundle : Bundle) (name : Option String) (source : Source) :
    Option Bundle :=
  match name with
  | some "red" => (source.list? Wire.read?).map fun wires => { bundle with red := some wires }
  | some "green" => (source.list? Wire.read?).map fun wires => { bundle with green := some wires }
  | _ => none

/-- Read the wires at one side. -/
def Bundle.read? : Source → Option Bundle
  | .object members => members.foldlM (fun bundle member => bundle.readMember? member.1 member.2) {}
  | _ => none

/-- Read the wires at one side into connections; the last bundle of a side counts. -/
def Connections.readMember? (connections : Connections) (name : Option String)
    (source : Source) : Option Connections :=
  match name with
  | some "1" => (Bundle.read? source).map fun bundle => { connections with one := some bundle }
  | some "2" => (Bundle.read? source).map fun bundle => { connections with two := some bundle }
  | _ => none

/-- Read the wires at an entity. -/
def Connections.read? : Source → Option Connections
  | .object members =>
    members.foldlM (fun connections member => connections.readMember? member.1 member.2) {}
  | _ => none

/-! ## Settings -/

/-- The type of signals with a name. -/
def SignalType.ofName? (name : Option String) : Option SignalType :=
  match name with
  | some "item" => some .item
  | some "virtual" => some .virtual
  | _ => none

/-- Read a type of signals: its name, or an object that gives the name the value null. -/
def SignalType.read? : Source → Option SignalType
  | .string name => ofName? name
  | .object [(name, .null)] => ofName? name
  | _ => none

/-- Read a signal. -/
def SignalId.read? (source : Source) : Option SignalId :=
  match source.fields? ["type", "name"] with
  | some [some type, some name] => do return ⟨← SignalType.read? type, ← name.text?⟩
  | _ => none

/-- Read an output of a constant combinator. -/
def Filter.read? (source : Source) : Option Filter :=
  match source.fields? ["signal", "count", "index"] with
  | some [some signal, some count, some index] => do
    return ⟨← SignalId.read? signal, ← count.count?, ← index.word?⟩
  | _ => none

/-- The behaviour of an entity stands below this many sequences and objects. -/
def Control.nesting : Nat := 4

/-- Read the behaviour of an entity. -/
def Control.read? : Source → Option Control
  | .object members => do
    let members ← Source.named? members
    let filters ← Source.readOptional? (Source.list? Filter.read?) (← Source.field? members "filters")
    let others := members.filter (·.1 != "filters")
    let settings ← others.mapM fun (name, source) =>
      (source.value? (Source.nestingLimit - nesting)).map (name, ·)
    return { filters, settings := Json.sortMembers settings }
  | _ => none

/-- Read a place. -/
def Position.read? (source : Source) : Option Position :=
  match source.fields? ["x", "y"] with
  | some [some x, some y] => do return ⟨← x.real?, ← y.real?⟩
  | _ => none

/-! ## Entities -/

/-- Read an entity. -/
def Entity.read? (source : Source) : Option Entity :=
  match source.fields?
      ["entity_number", "name", "position", "direction", "control_behavior", "connections"] with
  | some [some number, some name, some position, direction, control, connections] => do
    return {
      number := ← number.word?
      name := ← name.text?
      position := ← Position.read? position
      direction := ← Source.readOptional? Source.byte? direction
      control := ← Source.readOptional? Control.read? control
      connections := ← (connections.map Connections.read?).getD (some {}) }
  | _ => none

end CircuitRom
