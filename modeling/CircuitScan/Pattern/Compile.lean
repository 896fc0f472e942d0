import CircuitScan.Automaton
import CircuitScan.Pattern

/-!
# CircuitScan.Pattern.Compile

The automaton of a pattern. State 0 is the start, and the unit at index `i` leads to state
`i + 1`. While the units are laid out from left to right, the frontier holds the states in which
the units so far may be complete:

1. an edge for each character of the unit leads from each frontier state to the unit's state;
2. a starred unit loops on its own state and may be left out, so its state joins the frontier;
3. a plain unit must be taken, so its state becomes the frontier.

The frontier behind the last unit is accepting. A pattern in which one character could be taken
by two units is a conflict, as the automaton would have to guess.
-/

namespace CircuitScan.Pattern

/-- An automaton under construction. -/
structure Draft where
  table : Table := Table.empty
  /-- the states in which the units so far may be complete -/
  frontier : List Nat := [0]
  /-- the state of the next unit -/
  next : Nat := 1

/-- Lays out one unit. -/
def Draft.layOut (d : Draft) (u : Unit) : Except LoadError Draft := do
  let table ← d.frontier.foldlM (fun t state => t.addEdges state u.characters d.next) d.table
  if u.starred then
    let looped ← table.addEdges d.next u.characters d.next
    return ⟨looped, d.frontier ++ [d.next], d.next + 1⟩
  else
    return ⟨table, [d.next], d.next + 1⟩

/-- The automaton of a draft that is complete. -/
def Draft.toAutomaton (d : Draft) : Automaton := ⟨d.table, 0, d.frontier⟩

/-- The automaton of a sequence of units. -/
def compileUnits (units : List Unit) : Except LoadError Automaton := do
  let d ← units.foldlM Draft.layOut {}
  return d.toAutomaton

/-- The automaton of a pattern. -/
def compile (pattern : String) : Except LoadError Automaton := do
  let units ← parse pattern
  compileUnits units

end CircuitScan.Pattern
