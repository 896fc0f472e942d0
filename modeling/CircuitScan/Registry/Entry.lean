import CircuitScan.Registry

/-!
# CircuitScan.Registry.Entry

Entries: recognizers as they are described, before their automata are built. A registry is built
from a list of entries in order, and the first entry that fails decides.
-/

namespace CircuitScan

/-- How an entry describes its automaton. -/
inductive Body where
  | pattern (text : String)
  | graph (start : Nat) (accepting : List Nat) (graph : Graph)

/-- The description of a recognizer. -/
structure Entry where
  name : String
  kind : Kind
  body : Body

/-- The recognizer of an entry, in no registry yet. -/
def Entry.build (e : Entry) : Except LoadError Recognizer :=
  match e.body with
  | .pattern text => Recognizer.ofPattern e.name e.kind text
  | .graph start accepting graph => Recognizer.ofGraph e.name e.kind start accepting graph

namespace Registry

/-- Builds and registers an entry. A fault of the entry itself comes before a name that is
taken. -/
def add (r : Registry) (e : Entry) : Except LoadError Registry := do
  let x ← e.build
  r.register x

/-- The registry of a list of entries. -/
def ofEntries (es : List Entry) : Except LoadError Registry := es.foldlM add empty

end Registry

end CircuitScan
