/-!
# Lines of a text

A line ends at a line feed, and one carriage return right before that line feed belongs to the
line's end.  A carriage return anywhere else is part of its line.  No line follows the last line
feed of the text.
-/

namespace CircuitRom
namespace Text

/-- The lines of a text, without their ends. -/
def lines : List Char → List (List Char)
  | [] => []
  | c :: rest =>
    if c = '\n' then [] :: lines rest
    else if c = '\r' ∧ rest.head? = some '\n' then lines rest
    else
      match lines rest with
      | [] => [[c]]
      | line :: more => (c :: line) :: more

example : lines "a\r\nb\n".toList = [['a'], ['b']] := by decide
example : lines "a\r\r\n\nb\r".toList = [['a', '\r'], [], ['b', '\r']] := by decide

end Text
end CircuitRom
