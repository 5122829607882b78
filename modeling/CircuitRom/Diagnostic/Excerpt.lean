import CircuitRom.Diagnostic
import CircuitRom.Text.Style

/-!
# Messages with a source excerpt

A message is a header line and, when it is about a place in the source, the line of the source
with a caret under that place.
-/

namespace CircuitRom

open Text (styled)

/-- A message to the user. -/
inductive Message
  | error (category : Option Category) (text : String)
  | warn (text : String)
  | note (text : String)
deriving DecidableEq, Repr

/-- Spaces up to the column of a site, then a caret. -/
def Site.caret (site : Site) : String := Text.spaces site.col ++ "^"

/-- The source line of a site with a caret under it. -/
def Site.excerpt (site : Site) (file : String) : String :=
  let bar := styled [.blue] "|"
  "     " ++ styled [.blue] "-->" ++ " " ++
      styled [.underline] (file ++ ":" ++ toString site.line ++ ":" ++ toString (site.col + 1)) ++
      "\n" ++
    "      " ++ bar ++ "\n" ++
    " " ++ styled [.blue] (Text.padLeft 4 (toString site.line) ++ " |") ++ " " ++ site.raw ++ "\n" ++
    "      " ++ bar ++ " " ++ styled [.red, .bold] site.caret ++ "\n"

namespace Message

/-- The first line of a message. -/
def header : Message → String
  | error none text => styled [.red, .bold] "error" ++ ": " ++ text ++ "\n"
  | error (some category) text =>
    styled [.red, .bold] ("error[" ++ category.name ++ "]") ++ ": " ++ text ++ "\n"
  | warn text => styled [.yellow, .bold] "warn" ++ ": " ++ text ++ "\n"
  | note text => styled [.green, .bold] "note" ++ ": " ++ text ++ "\n"

/-- The message, with an excerpt if it is about a place that somebody wrote. -/
def render (m : Message) (file : String) (site : Option Site) : String :=
  match site with
  | none => m.header
  | some site => if site.isNowhere then m.header else m.header ++ site.excerpt file

end Message

/-- The fault with its excerpt, followed by its notes with theirs. -/
def Diagnostic.render (d : Diagnostic) (file : String) : String :=
  (Message.error (some d.cause.category) d.cause.message).render file (some d.site) ++
    String.join (d.notes.map fun n => (Message.note n.text).render file (some n.site))

end CircuitRom
