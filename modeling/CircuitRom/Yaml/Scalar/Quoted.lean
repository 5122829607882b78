import CircuitRom.Text.Digits
import CircuitRom.Yaml.Scalar

/-!
# Quoted scalars

In single quotes only the quote itself is written otherwise, namely twice.  In double quotes a
backslash starts an escape; before a line end it joins the lines.
-/

namespace CircuitRom
namespace Yaml
namespace QuotedScalar

/-! ## Single quotes -/

/-- Read the rest of a scalar in single quotes. -/
def singleFrom (start : Mark) (gap : Gap) (done : List Char) (mark : Mark) :
    List Char → Except Fault (List Char × Cursor)
  | [] => .error ⟨.unclosedQuotes, mark, some (.quoted, start)⟩
  | '\'' :: '\'' :: rest =>
    singleFrom start .none ('\'' :: gap.onto done) ((mark.after '\'').after '\'') rest
  | c :: rest =>
    if c = '\'' then .ok ((gap.onto done).reverse, ⟨rest, mark.after c⟩)
    else if Cursor.atMarker ⟨c :: rest, mark⟩ then
      .error ⟨.documentInQuotes, mark, some (.quoted, start)⟩
    else if isGap c then singleFrom start (gap.push c) done (mark.after c) rest
    else singleFrom start .none (c :: gap.onto done) (mark.after c) rest

/-! ## Double quotes -/

/-- The character that an escape of one letter stands for. -/
def escape? (c : Char) : Option Char :=
  ([('0', 0x00), ('a', 0x07), ('b', 0x08), ('t', 0x09), ('\t', 0x09), ('n', 0x0A), ('v', 0x0B),
    ('f', 0x0C), ('r', 0x0D), ('e', 0x1B), (' ', 0x20), ('"', 0x22), ('/', 0x2F), ('\\', 0x5C),
    ('N', 0x85), ('_', 0xA0), ('L', 0x2028), ('P', 0x2029)].lookup c).map Char.ofNat

/-- How many digits follow an escape of the given letter. -/
def escapeDigits (c : Char) : Nat :=
  if c = 'x' then 2 else if c = 'u' then 4 else if c = 'U' then 8 else 0

/-- The character with a number, if there is one. -/
def character? (n : Nat) : Option Char := if n.isValidChar then some (Char.ofNat n) else none

/-- Where in an escape the reading stands. -/
inductive Escape where
  /-- In no escape. -/
  | none
  /-- After the backslash at a place. -/
  | letter (place : Mark)
  /-- Before digits: where they start, how many are left, and the number written so far. -/
  | digits (place : Mark) (left value : Nat)
deriving DecidableEq, Repr

/-- The problem with a scalar that ends here. -/
def Escape.endFault (start mark : Mark) : Escape → Fault
  | .none => ⟨.unclosedQuotes, mark, some (.quoted, start)⟩
  | .letter place => ⟨.unknownEscape, place, some (.escape, start)⟩
  | .digits place _ _ => ⟨.missingDigits, place, some (.escape, start)⟩

/-- Read the rest of a scalar in double quotes. -/
def doubleFrom (start : Mark) (escape : Escape) (gap : Gap) (done : List Char) (mark : Mark) :
    List Char → Except Fault (List Char × Cursor)
  | [] => .error (escape.endFault start mark)
  | c :: rest =>
    let next := mark.after c
    match escape with
    | .none =>
      if c = '"' then .ok ((gap.onto done).reverse, ⟨rest, next⟩)
      else if Cursor.atMarker ⟨c :: rest, mark⟩ then
        .error ⟨.documentInQuotes, mark, some (.quoted, start)⟩
      else if isGap c then doubleFrom start .none (gap.push c) done next rest
      else if c = '\\' then doubleFrom start (.letter mark) .none (gap.onto done) next rest
      else doubleFrom start .none .none (c :: gap.onto done) next rest
    | .letter _ =>
      if isBreak c then doubleFrom start .none (.breaks .none []) done next rest
      else if escapeDigits c ≠ 0 then
        doubleFrom start (.digits next (escapeDigits c) 0) .none done next rest
      else
        match escape? c with
        | some c => doubleFrom start .none .none (c :: done) next rest
        | .none => .error (escape.endFault start mark)
    | .digits place left value =>
      match Text.digit? 16 c with
      | .none => .error (escape.endFault start mark)
      | some d =>
        let value := value * 16 + d
        if 1 < left then doubleFrom start (.digits place (left - 1) value) .none done next rest
        else
          match character? value with
          | some c => doubleFrom start .none .none (c :: done) next rest
          | .none => .error ⟨.noCharacter, place, some (.escape, start)⟩

/-! ## Both -/

/-- Read a quoted scalar, whose first character says how it is quoted. -/
def read (c : Cursor) : Except Fault (List Char × Cursor) :=
  let next := c.next
  if c.head? = some '"' then doubleFrom c.mark .none .none [] next.mark next.rest
  else singleFrom c.mark .none [] next.mark next.rest

/-- The text of the quoted scalar in front of a text. -/
def textOf? (text : String) : Option String :=
  match read ⟨text.toList, {}⟩ with
  | .ok (cs, _) => some (String.ofList cs)
  | .error _ => none

example : textOf? "'it''s '" = some "it's " := by decide
example : textOf? "'a \n  b\n\n\tc '" = some "a b\nc " := by decide
example : textOf? "\"a\\\n  b\\u00e9\\/\"" = some "abé/" := by decide
example : textOf? "\"a\\\n\n\n b \\\n  c\"" = some "a\n\nb c" := by decide
example : ["'a", "\"\\q\"", "\"\\u00g0\"", "\"\\ud800\"", "'a\n--- b'", "\"\\"].map textOf? =
    List.replicate 6 none := by decide

end QuotedScalar
end Yaml
end CircuitRom
