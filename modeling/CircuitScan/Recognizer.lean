import CircuitScan.Graph
import CircuitScan.Pattern.Compile

/-!
# CircuitScan.Recognizer

A recognizer: an automaton with a name, the kind of token it makes, and its rank. No recognizer
accepts the empty text, as it would then find a token in front of every character.
-/

namespace CircuitScan

/-- A named automaton that makes tokens of one kind. -/
structure Recognizer where
  name : String
  kind : Kind
  automaton : Automaton
  /-- the rank among other recognizers, the lowest number first -/
  priority : Nat := 0

namespace Recognizer

/-- The recognizer of an automaton, unless its start accepts. -/
def ofAutomaton (name : String) (kind : Kind) (a : Automaton) : Except LoadError Recognizer :=
  if a.isAccepting a.start then .error (.nullable name) else .ok { name, kind, automaton := a }

/-- The recognizer of a pattern. -/
def ofPattern (name : String) (kind : Kind) (pattern : String) : Except LoadError Recognizer := do
  let a ← (Pattern.compile pattern).mapError (·.within name)
  ofAutomaton name kind a

/-- The recognizer of a graph with a start state and accepting states. -/
def ofGraph (name : String) (kind : Kind) (start : Nat) (accepting : List Nat) (graph : Graph) :
    Except LoadError Recognizer := do
  let table ← graph.toTable.mapError (·.within name)
  ofAutomaton name kind { table, start, accepting }

/-- Whether the automaton has a path over a word. -/
def follows (r : Recognizer) (word : List Char) : Bool := r.automaton.follows word

/-- Whether the automaton accepts a word. -/
def accepts (r : Recognizer) (word : List Char) : Bool := r.automaton.accepts word

/-- A built recognizer does not accept the empty text. -/
theorem accepts_nil_of_ofAutomaton {name : String} {kind : Kind} {a : Automaton} {r : Recognizer}
    (h : ofAutomaton name kind a = .ok r) : r.accepts [] = false := by
  unfold ofAutomaton at h
  split at h
  · contradiction
  · rename_i ha
    cases h
    exact Bool.eq_false_iff.mpr ha

end Recognizer

end CircuitScan
