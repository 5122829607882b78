import CircuitRom.Blueprint.Entity.Write
import CircuitRom.Blueprint.Row
import CircuitRom.Signal
import CircuitRom.Update

/-!
# Blueprints

The blueprint of a program memory: a frame with a lamp for the address that is asked for and a lamp
for the instruction that is given out, and below it one wired row of combinators per instruction.
-/

namespace CircuitRom

/-- A blueprint under construction. -/
structure Blueprint where
  /-- Its name. -/
  label : String
  /-- The entities in order of placing. -/
  entities : Array Entity := #[]
  /-- For each row the places of its four entities in `entities`. -/
  rows : Array (Row Nat) := #[]
  /-- The number that the next entity gets. -/
  next : Nat := 1

namespace Blueprint

/-- The name of a blueprint that is given none. -/
def defaultLabel : String := "Program - PROM"

/-! ## Placing -/

/-- Place an entity after the others and give it the next number. -/
def place (b : Blueprint) (entity : Entity) : Blueprint :=
  { b with entities := b.entities.push { entity with number := b.next }, next := b.next + 1 }

/-- Change the entity at a place. -/
def modify (b : Blueprint) (i : Nat) (f : Entity → Entity) : Blueprint :=
  { b with entities := b.entities.modify i f }

/-- One end of a wire: the place of an entity and one of its sides. -/
structure Terminal where
  /-- The place of the entity. -/
  place : Nat
  /-- The side. -/
  side : Side
deriving DecidableEq, Repr

/-- The number of the entity at a place. -/
def numberAt (b : Blueprint) (i : Nat) : Nat := ((b.entities[i]?).map (·.number)).getD 0

/-- A terminal as the entity at the other end of a wire records it. -/
def wireTo (b : Blueprint) (t : Terminal) : Wire := ⟨b.numberAt t.place, t.side.number⟩

/-- Record a wire at one of its ends. -/
def attach (b : Blueprint) (t : Terminal) (color : Color) (wire : Wire) : Blueprint :=
  b.modify t.place (·.attach t.side color wire)

/-- Draw a wire between two terminals. -/
def connect (b : Blueprint) (color : Color) (s t : Terminal) : Blueprint :=
  let near := b.wireTo s
  let far := b.wireTo t
  (b.attach s color far).attach t color near

/-! ## The frame -/

/-- Where the walls of the frame stand. -/
def walls : List (Int × Int) := [(-4, -1), (-4, 0), (-3, -1), (2, -1), (3, 0), (3, -1)]

/-- The entities of the frame: walls, the lamp that takes the address, and the lamp that gives out
the instruction. -/
def frame : List Entity :=
  walls.map (fun (x, y) => Entity.plain "stone-wall" x y) ++
    [Entity.plain "small-lamp" (-1) (-2), Entity.plain "small-lamp" 2 (-2)]

/-- The place of the lamp that takes the address. -/
def addressLamp : Nat := 6

/-- The place of the lamp that gives out the instruction. -/
def outputLamp : Nat := 7

/-- A blueprint without rows. -/
def new (label : String) : Blueprint := frame.foldl place { label }

/-! ## Rows -/

/-- An entity of a row template, moved to the row with the given number. -/
def moveTo (row : Nat) (entity : Entity) : Entity :=
  { entity with position := { entity.position with y := .ofInt row } }

/-- The wires of a row, in the order of drawing, given the row before it if there is one. -/
def wiring (row : Row Nat) (previous : Option (Row Nat)) : List (Color × Terminal × Terminal) :=
  let counter : Terminal := ⟨row.counter, .one⟩
  let lamp : Terminal := ⟨row.lamp, .one⟩
  let storage : Terminal := ⟨row.storage, .one⟩
  let decider : Terminal := ⟨row.decider, .one⟩
  let output : Terminal := ⟨row.decider, .two⟩
  let count := previous.map fun p => (Color.red, counter, Terminal.mk p.counter .two)
  let address : Terminal := ⟨(previous.map (·.lamp)).getD addressLamp, .one⟩
  let passOn : Terminal :=
    match previous with
    | some p => ⟨p.decider, .two⟩
    | none => ⟨outputLamp, .one⟩
  count.toList ++
    [(.red, counter, lamp), (.red, lamp, decider), (.red, storage, decider),
      (.green, lamp, address), (.green, lamp, decider), (.green, output, passOn)]

/-- Draw wires. -/
def connectAll (b : Blueprint) (wires : List (Color × Terminal × Terminal)) : Blueprint :=
  wires.foldl (fun b (color, s, t) => b.connect color s t) b

/-- Add a row below the others. -/
def addRow (b : Blueprint) (template : Row Entity) : Blueprint :=
  let n := b.entities.size
  let row : Row Nat := ⟨n, n + 1, n + 2, n + 3⟩
  let placed := (template.map (moveTo b.rows.size)).toList.foldl place b
  let wired := placed.connectAll (wiring row b.rows.back?)
  { wired with rows := b.rows.push row }

/-- Add rows below the others. -/
def addRows (b : Blueprint) (template : Row Entity) : Nat → Blueprint
  | 0 => b
  | n + 1 => (b.addRow template).addRows template n

/-! ## Signals -/

/-- The signals that are items of the game; all others are virtual. -/
def itemSignals : List String := ["copper-ore", "copper-plate", "iron-ore", "iron-plate"]

/-- The signal with a name. -/
def signalId (name : String) : SignalId :=
  ⟨if itemSignals.contains name then .item else .virtual, name⟩

/-- The outputs of a constant combinator that puts out the given signals in their order. -/
def filtersOf (signals : Signals) : List Filter :=
  signals.entries.mapIdx fun i (name, value) => ⟨signalId name, value, i + 1⟩

/-- Put signals into a row. -/
def put (b : Blueprint) (entry : Row Nat × Signals) : Blueprint :=
  b.modify entry.1.storage (·.setFilters (filtersOf entry.2))

/-- Put signals into the rows, one dictionary each. -/
def fillRows (signals : List Signals) : Update Blueprint BlueprintFault Unit := do
  let rows := (← get).rows
  if signals.length ≠ rows.size then throw (.rowCount rows.size signals.length)
  (rows.toList.zip signals).forM fun entry => modifyThe Blueprint (·.put entry)

/-- What putting signals into the rows comes to: if there are not as many of them as rows, the
blueprint is as it was. -/
theorem outcome_fillRows (signals : List Signals) (b : Blueprint) :
    (fillRows signals).outcome b =
      if signals.length ≠ b.rows.size then (.error (.rowCount b.rows.size signals.length), b)
      else (.ok (), (b.rows.toList.zip signals).foldl put b) := by
  rw [fillRows, Update.outcome_bind, Update.outcome_get]
  dsimp only
  split
  · exact Update.outcome_throw _ _
  · exact Update.outcome_forM_modify put _ b

/-- The blueprint with signals put into its rows. -/
def insertSignals (b : Blueprint) (signals : List Signals) : Except BlueprintFault Blueprint :=
  ((fillRows signals).attempt b).map (·.2)

theorem insertSignals_eq (b : Blueprint) (signals : List Signals) :
    b.insertSignals signals =
      if signals.length ≠ b.rows.size then .error (.rowCount b.rows.size signals.length)
      else .ok ((b.rows.toList.zip signals).foldl put b) := by
  rw [insertSignals, Update.attempt, outcome_fillRows]
  by_cases hlength : signals.length ≠ b.rows.size
  · rw [if_pos hlength, if_pos hlength]
    rfl
  · rw [if_neg hlength, if_neg hlength]
    rfl

/-- The outputs of the storage of each row. -/
def rowFilters (b : Blueprint) : List (List Filter) :=
  b.rows.toList.map fun row => ((b.entities[row.storage]?).map (·.filters)).getD []

/-- The blueprint of the memory that holds the given signals, one dictionary a row. -/
def rom (label : String) (signals : List Signals) : Except BlueprintFault Blueprint :=
  ((new label).addRows Row.standard signals.length).insertSignals signals

/-! ## The document -/

/-- The version of the game for which the document is written. -/
def gameVersion : Nat := 64427130880

/-- The icons of a program memory. -/
def icons : List Json :=
  "PROM".toList.mapIdx fun i c =>
    .object [("signal", (SignalId.mk .virtual s!"signal-{c}").toJson), ("index", .nat (i + 1))]

/-- The document of a blueprint. -/
def document (b : Blueprint) : Json :=
  .object [("blueprint", .object [("label", .string b.label), ("item", .string "blueprint"),
    ("version", .nat gameVersion), ("icons", .array icons),
    ("entities", .array (b.entities.toList.map Entity.toJson))])]

/-- The text of the document of a blueprint. -/
def json (b : Blueprint) : String := b.document.render

end Blueprint
end CircuitRom
