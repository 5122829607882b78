import CircuitRom.Blueprint.Entity

/-!
# Entities as JSON

What a blueprint document says of an entity.  Settings that are not given are left out.
-/

namespace CircuitRom

/-- The value of a far end of a wire. -/
def Wire.toJson (wire : Wire) : Json :=
  .object [("entity_id", .nat wire.entity), ("circuit_id", .nat wire.circuit)]

/-- The value of the wires at one side. -/
def Bundle.toJson (bundle : Bundle) : Json :=
  let wires (list : List Wire) : Json := .array (list.map Wire.toJson)
  .object (Json.optional "red" (bundle.red.map wires) ++
    Json.optional "green" (bundle.green.map wires))

/-- The value of the wires at an entity, if a side was ever used. -/
def Connections.toJson? (connections : Connections) : Option Json :=
  match Json.optional "1" (connections.one.map Bundle.toJson) ++
      Json.optional "2" (connections.two.map Bundle.toJson) with
  | [] => none
  | members => some (.object members)

/-- The value of a signal. -/
def SignalId.toJson (signal : SignalId) : Json :=
  .object [("type", .string signal.type.name), ("name", .string signal.name)]

/-- The value of an output of a constant combinator. -/
def Filter.toJson (filter : Filter) : Json :=
  .object [("signal", filter.signal.toJson), ("count", .int filter.count.toInt),
    ("index", .nat filter.index)]

/-- The value of the behaviour of an entity: the outputs come first. -/
def Control.toJson (control : Control) : Json :=
  let filters? := control.filters.map fun filters => Json.array (filters.map Filter.toJson)
  .object (Json.optional "filters" filters? ++ control.settings)

/-- The value of a place. -/
def Position.toJson (position : Position) : Json :=
  .object [("x", .number (.real position.x)), ("y", .number (.real position.y))]

/-- The value of an entity. -/
def Entity.toJson (entity : Entity) : Json :=
  .object ([("entity_number", .nat entity.number), ("name", .string entity.name),
      ("position", entity.position.toJson)] ++
    Json.optional "direction" (entity.direction.map .nat) ++
    Json.optional "control_behavior" (entity.control.map Control.toJson) ++
    Json.optional "connections" entity.connections.toJson?)

end CircuitRom
