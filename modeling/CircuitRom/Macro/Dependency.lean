import CircuitRom.Macro

/-!
# Dependencies between macros

A macro depends on every macro whose name is a token of its body.  `check` refuses tables in which
a macro depends on itself, directly or through others, and shows the first circle that a search
along the dependencies meets.
-/

namespace CircuitRom
namespace MacroTable

/-- The positions of the macros that a macro's body names, each once, in the order of their first
mention. -/
def dependencies (table : MacroTable) (m : Macro) : Except Diagnostic (List Nat) :=
  match m.body.flatten.find? (·.text == m.name) with
  | some token => .error (.atToken (.macroSelfReference m.name) token)
  | none => .ok (m.body.flatten.filterMap fun token => table.indexOf? token.text).eraseDups

/-- The dependencies of every macro of the table. -/
def graph (table : MacroTable) : Except Diagnostic (List (List Nat)) :=
  table.values.mapM table.dependencies

/-! ## Search for a circle -/

/-- The circle that is closed by a step back to `node` from the head of `path`, which lists the
nodes of the search from the last one back to the first. -/
def circle (path : List Nat) (node : Nat) : List Nat :=
  node :: (path.takeWhile (· ≠ node)).reverse ++ [node]

/-- Search from `node`, which was reached along `path`, with the nodes in `finished` done.  The
answer is the extended list of nodes that are done, or a circle.  A path visits no node twice, so
as many levels as there are nodes suffice. -/
def visit (edges : List (List Nat)) : Nat → List Nat → List Nat → Nat →
    Except (List Nat) (List Nat)
  | 0, _, finished, _ => .ok finished
  | levels + 1, path, finished, node => do
    let path := node :: path
    let finished ← (edges.getD node []).foldlM
      (fun finished next =>
        if next ∈ path then .error (circle path next)
        else if next ∈ finished then .ok finished
        else visit edges levels path finished next)
      finished
    return node :: finished

/-- A circle in a graph, if there is one. -/
def findCircle (edges : List (List Nat)) : Except (List Nat) (List Nat) :=
  (List.range edges.length).foldlM
    (fun finished root =>
      if root ∈ finished then .ok finished else visit edges edges.length [] finished root)
    []

/-- The fault of a circle, at the declaration where it starts. -/
def circleFault (table : MacroTable) (nodes : List Nat) : Option Diagnostic :=
  let members := nodes.filterMap (table.values[·]?)
  members.head?.map fun m => .atToken (.macroCycle (members.map (·.name))) m.head

/-- Refuse a table in which a macro depends on itself. -/
def check (table : MacroTable) : Except Diagnostic Unit := do
  let edges ← table.graph
  match findCircle edges with
  | .ok _ => return ()
  | .error nodes =>
    match table.circleFault nodes with
    | some fault => .error fault
    | none => return ()

end MacroTable
end CircuitRom
