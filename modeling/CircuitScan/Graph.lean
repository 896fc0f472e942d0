import CircuitScan.Assoc
import CircuitScan.Label
import CircuitScan.Table

/-!
# CircuitScan.Graph

Graphs with labelled arrows, the written form of a transition table. A graph has one row for each
state, and a row has one target for each label:

1. writing a label again in one row replaces its target;
2. writing a row again replaces the whole row;
3. an arrow stands for one edge for each character of its label, and two arrows of one state may
   share a character only if they share the target.
-/

namespace CircuitScan

/-- A row of a graph: the target of each label. -/
abbrev Row := List (String × Nat)

/-- A graph with labelled arrows. -/
structure Graph where
  rows : List (Nat × Row) := []

namespace Graph

/-- An arrow from a state to a state. -/
structure Arrow where
  source : Nat
  label : String
  target : Nat
deriving DecidableEq

/-- The arrows of a row. -/
def rowArrows (source : Nat) (row : Row) : List Arrow :=
  row.map fun (label, target) => ⟨source, label, target⟩

/-- All arrows, in the order of the rows and of the labels in each row. -/
def arrows (g : Graph) : List Arrow :=
  g.rows.flatMap fun (source, row) => rowArrows source row

/-! ## Writing a graph -/

/-- The graph without states. -/
def empty : Graph := {}

/-- The row of a state. -/
def row (g : Graph) (source : Nat) : Row := (Assoc.get? source g.rows).getD []

/-- Writes the row of a state. -/
def putRow (g : Graph) (source : Nat) (row : Row) : Graph :=
  ⟨Assoc.put source row g.rows⟩

/-- The row that is written last counts. -/
theorem row_putRow (g : Graph) (source source' : Nat) (row : Row) :
    (g.putRow source row).row source' = if source = source' then row else g.row source' := by
  unfold Graph.row putRow
  rw [Assoc.get?_put]
  split <;> rfl

/-- Writes a state without touching the arrows it may have. -/
def declare (g : Graph) (source : Nat) : Graph := g.putRow source (g.row source)

/-- Writes an arrow. -/
def putArrow (g : Graph) (a : Arrow) : Graph :=
  g.putRow a.source (Assoc.put a.label a.target (g.row a.source))

/-! ## The table of a graph -/

/-- Adds the edges of an arrow. -/
def Arrow.addTo (a : Arrow) (t : Table) : Except LoadError Table :=
  if a.label = "" then .error (.emptyLabel a.source)
  else do
    let cs ← Label.expand a.label
    t.addEdges a.source cs a.target

/-- The transition table that a graph stands for. -/
def toTable (g : Graph) : Except LoadError Table :=
  g.arrows.foldlM (fun t a => a.addTo t) Table.empty

end Graph

end CircuitScan
