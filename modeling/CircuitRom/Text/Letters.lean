/-!
# Letters and columns

Names are compared without regard to the case of the ASCII letters, and tables are laid out by
padding with spaces.  Widths count characters.
-/

namespace CircuitRom
namespace Text

/-- The characters of a text with the ASCII capitals made small. -/
def foldCase (text : String) : List Char := text.toList.map Char.toLower

/-- Are two texts equal up to the case of ASCII letters? -/
def sameLetters (a b : String) : Bool := foldCase a == foldCase b

theorem sameLetters_iff {a b : String} : sameLetters a b = true ↔ foldCase a = foldCase b := by
  simp [sameLetters]

/-- `count` spaces. -/
def spaces (count : Nat) : String := String.ofList (List.replicate count ' ')

/-- The text followed by spaces, up to `width` characters. -/
def padRight (width : Nat) (text : String) : String := text ++ spaces (width - text.length)

/-- The text after spaces, up to `width` characters. -/
def padLeft (width : Nat) (text : String) : String := spaces (width - text.length) ++ text

/-- The decimal digits of a number after zeros, up to `width` characters. -/
def zeroPadded (width n : Nat) : String :=
  let digits := toString n
  String.ofList (List.replicate (width - digits.length) '0') ++ digits

end Text
end CircuitRom
