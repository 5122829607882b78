/-!
# Terminal styles

Coloured and emphasised text, written with the terminal's escape sequences.  They are written
whether or not the output is a terminal.
-/

namespace CircuitRom
namespace Text

/-- A way to show a piece of text. -/
inductive Style
  | bold
  | underline
  | red
  | green
  | yellow
  | blue
  | cyan
deriving DecidableEq, Repr

namespace Style

/-- The number that switches the style on. -/
def on : Style → Nat
  | bold => 1
  | underline => 4
  | red => 31
  | green => 32
  | yellow => 33
  | blue => 34
  | cyan => 36

/-- The number that switches the style off; all colours share one. -/
def off : Style → Nat
  | bold => 22
  | underline => 24
  | _ => 39

/-- The escape sequence for one number. -/
def sequence (n : Nat) : String := "\x1b[" ++ toString n ++ "m"

end Style

/-- The text between the switches of the given styles, both in the order given. -/
def styled (styles : List Style) (text : String) : String :=
  String.join (styles.map fun s => Style.sequence s.on) ++ text ++
    String.join (styles.map fun s => Style.sequence s.off)

example : styled [.red, .bold] "x" = "\x1b[31m\x1b[1mx\x1b[39m\x1b[22m" := by rfl

end Text
end CircuitRom
