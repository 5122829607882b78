import CircuitRom.Text.Letters

/-!
# Registers

The machine has sixteen registers `R0` to `R15`; the last is the stack pointer and may also be
written `SP`.  A value of zero is never transmitted on a circuit network, so the wire carries the
register's number plus one.
-/

namespace CircuitRom

/-- A register of the machine. -/
structure Register where
  /-- The number in the register's name. -/
  number : Fin 16
deriving DecidableEq, Repr

namespace Register

/-- The registers in order. -/
def all : List Register := (List.finRange 16).map Register.mk

/-- The stack pointer, used by `PUSH` and `POP`. -/
def stackPointer : Register := ⟨15⟩

/-- The name under which a register is shown. -/
def name (r : Register) : String := "R" ++ toString r.number.val

/-- The names under which a register may be written. -/
def names (r : Register) : List String :=
  if r = stackPointer then [r.name, "SP"] else [r.name]

/-- The value placed on the wire for a register. -/
def index (r : Register) : Nat := r.number.val + 1

/-- The register with the given value on the wire. -/
def ofIndex? (n : Nat) : Option Register := all.find? fun r => r.index == n

/-- The register with the given name, in letters of either case. -/
def ofName? (text : String) : Option Register :=
  all.find? fun r => r.names.any fun name => Text.sameLetters name text

/-- A register's value on the wire as a signal value. -/
def word (r : Register) : Int32 := Int32.ofNat r.index

example : ofName? "r3" = some ⟨3⟩ := by decide
example : ofName? "sP" = some stackPointer := by decide
example : ofName? "R16" = none := by decide

end Register
end CircuitRom
