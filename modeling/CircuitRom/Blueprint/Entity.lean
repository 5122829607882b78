import CircuitRom.Json

/-!
# Entities

The things that a blueprint places on the map: where they stand, how they are set, and the wires
between them.  A wire is recorded at both of its ends.
-/

namespace CircuitRom

/-! ## Wires -/

/-- The colour of a wire.  Wires of different colours never touch. -/
inductive Color where
  /-- Red. -/
  | red
  /-- Green. -/
  | green
deriving DecidableEq, Repr

/-- The point of an entity where wires are attached.  Combinators have an input, side one, and an
output, side two. -/
inductive Side where
  /-- The first side. -/
  | one
  /-- The second side. -/
  | two
deriving DecidableEq, Repr

/-- The number of a side. -/
def Side.number : Side → Nat
  | .one => 1
  | .two => 2

/-- The far end of a wire. -/
structure Wire where
  /-- The number of the entity at the far end. -/
  entity : Nat
  /-- The number of its side. -/
  circuit : Nat
deriving DecidableEq, Repr

/-- The wires at one side.  A colour that was never used differs from one with no wires. -/
structure Bundle where
  /-- The red wires. -/
  red : Option (List Wire) := none
  /-- The green wires. -/
  green : Option (List Wire) := none
deriving DecidableEq, Repr

namespace Bundle

/-- The wires of a colour. -/
def get (bundle : Bundle) : Color → List Wire
  | .red => bundle.red.getD []
  | .green => bundle.green.getD []

/-- Attach a wire after those of its colour. -/
def attach (bundle : Bundle) (color : Color) (wire : Wire) : Bundle :=
  match color with
  | .red => { bundle with red := some (bundle.red.getD [] ++ [wire]) }
  | .green => { bundle with green := some (bundle.green.getD [] ++ [wire]) }

/-- Attaching a wire adds it at the end of its colour and leaves the other colour alone. -/
theorem get_attach (bundle : Bundle) (color other : Color) (wire : Wire) :
    (bundle.attach color wire).get other =
      if other = color then bundle.get other ++ [wire] else bundle.get other := by
  cases color <;> cases other <;> rfl

end Bundle

/-- The wires at an entity.  A side that was never used differs from one with no wires. -/
structure Connections where
  /-- The wires at side one. -/
  one : Option Bundle := none
  /-- The wires at side two. -/
  two : Option Bundle := none
deriving DecidableEq, Repr

namespace Connections

/-- The wires of a colour at a side. -/
def get (connections : Connections) (side : Side) (color : Color) : List Wire :=
  match side with
  | .one => (connections.one.getD {}).get color
  | .two => (connections.two.getD {}).get color

/-- Attach a wire at a side after those of its colour. -/
def attach (connections : Connections) (side : Side) (color : Color) (wire : Wire) :
    Connections :=
  match side with
  | .one => { connections with one := some ((connections.one.getD {}).attach color wire) }
  | .two => { connections with two := some ((connections.two.getD {}).attach color wire) }

/-- Attaching a wire adds it at the end of its side and colour and changes nothing else. -/
theorem get_attach (connections : Connections) (side other : Side) (color hue : Color)
    (wire : Wire) :
    (connections.attach side color wire).get other hue =
      if other = side ∧ hue = color then connections.get other hue ++ [wire]
      else connections.get other hue := by
  cases side <;> cases other <;> cases color <;> cases hue <;> rfl

end Connections

/-! ## Settings -/

/-- What a signal stands for. -/
inductive SignalType where
  /-- An item of the game. -/
  | item
  /-- A letter, a digit or a colour. -/
  | virtual
deriving DecidableEq, Repr

/-- The name of a type of signals. -/
def SignalType.name : SignalType → String
  | .item => "item"
  | .virtual => "virtual"

/-- A signal as entities refer to it. -/
structure SignalId where
  /-- What it stands for. -/
  type : SignalType
  /-- Its name. -/
  name : String
deriving DecidableEq, Repr

/-- One output of a constant combinator. -/
structure Filter where
  /-- The signal that is put out. -/
  signal : SignalId
  /-- The value that is put out. -/
  count : Int32
  /-- The slot of the combinator, from one. -/
  index : Nat
deriving DecidableEq

/-- How an entity behaves in its circuit. -/
structure Control where
  /-- The outputs of a constant combinator, if they are set. -/
  filters : Option (List Filter) := none
  /-- All other settings, sorted by name. -/
  settings : List (String × Json) := []

/-- A place on the map. -/
structure Position where
  /-- Eastwards. -/
  x : Binary64
  /-- Southwards. -/
  y : Binary64
deriving DecidableEq, Repr

/-! ## Entities -/

/-- A thing that is placed on the map. -/
structure Entity where
  /-- The number by which wires refer to it. -/
  number : Nat
  /-- What is placed. -/
  name : String
  /-- Where it stands. -/
  position : Position
  /-- Which way it looks, if it has a direction. -/
  direction : Option Nat := none
  /-- How it behaves, if that is set. -/
  control : Option Control := none
  /-- The wires at it. -/
  connections : Connections := {}

namespace Entity

/-- An entity without settings and wires.  It gets its number when it is placed. -/
def plain (name : String) (x y : Int) : Entity :=
  { number := 0, name, position := ⟨.ofInt x, .ofInt y⟩ }

/-- The wires of a colour at a side. -/
def wires (entity : Entity) (side : Side) (color : Color) : List Wire :=
  entity.connections.get side color

/-- Attach a wire. -/
def attach (entity : Entity) (side : Side) (color : Color) (wire : Wire) : Entity :=
  { entity with connections := entity.connections.attach side color wire }

/-- The outputs of a constant combinator. -/
def filters (entity : Entity) : List Filter := (entity.control.bind (·.filters)).getD []

/-- Set the outputs of a constant combinator. -/
def setFilters (entity : Entity) (filters : List Filter) : Entity :=
  { entity with control := some { entity.control.getD {} with filters := some filters } }

theorem wires_attach (entity : Entity) (side other : Side) (color hue : Color) (wire : Wire) :
    (entity.attach side color wire).wires other hue =
      if other = side ∧ hue = color then entity.wires other hue ++ [wire]
      else entity.wires other hue :=
  Connections.get_attach ..

@[simp] theorem filters_setFilters (entity : Entity) (filters : List Filter) :
    (entity.setFilters filters).filters = filters := rfl

@[simp] theorem wires_setFilters (entity : Entity) (filters : List Filter) :
    (entity.setFilters filters).wires = entity.wires := rfl

end Entity
end CircuitRom
