import CircuitScan.Registry.Entry
import CircuitScan.Text.Blank
import CircuitScan.Text.Decimal

/-!
# CircuitScan.Registry.Declaration

Declarations: entries as recognizer files write them. The states of a graph are written as keys in
decimal digits, and more than one key may name a state: leading zeros, a plus sign and white space
around the digits do not count. The row of the last such key is the row of the state.
-/

namespace CircuitScan

/-- A graph as it is written: rows under the texts of their states. -/
abbrev WrittenGraph := List (String × Row)

/-- How a declaration describes its automaton. -/
inductive WrittenBody where
  | pattern (text : String)
  | graph (start : Nat) (accepting : List Nat) (rows : WrittenGraph)

/-- An entry as it is written in a file. -/
structure Declaration where
  name : String
  kind : Kind
  body : WrittenBody

namespace Declaration

/-! ## States in keys -/

/-- The state that a key names: digits behind at most one plus sign, with white space around them,
of a number that fits a word. -/
def state? (key : String) : Option Nat :=
  let digits := match Text.trim key.toList with
    | '+' :: cs => cs
    | cs => cs
  (Text.decimal? digits).filter (· < Text.wordEnd)

/-- The state that a key names. -/
def state (key : String) : Except LoadError Nat :=
  match state? key with
  | some n => .ok n
  | none => .error (.invalidState key)

/-! ## Entries -/

/-- The graph of written rows. Of two keys that name one state, the later gives its row. -/
def toGraph (rows : WrittenGraph) : Except LoadError Graph :=
  rows.foldlM (fun g (key, row) => do return g.putRow (← state key) row) Graph.empty

/-- The entry of a declaration. -/
def toEntry (d : Declaration) : Except LoadError Entry :=
  match d.body with
  | .pattern text => .ok { name := d.name, kind := d.kind, body := .pattern text }
  | .graph start accepting rows => do
    let graph ← (toGraph rows).mapError (·.within d.name)
    return { name := d.name, kind := d.kind, body := .graph start accepting graph }

end Declaration

namespace Registry

/-- Builds and registers a declaration. -/
def addDeclaration (r : Registry) (d : Declaration) : Except LoadError Registry := do
  r.add (← d.toEntry)

end Registry

end CircuitScan
