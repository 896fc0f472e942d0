import CircuitScan.Table

/-!
# CircuitScan.Automaton

Deterministic automata: a transition table with a start state and accepting states. Two questions
can be asked about a word: whether the table has a path over it at all (`follows`), and whether
that path ends in an accepting state (`accepts`).
-/

namespace CircuitScan

/-- A deterministic automaton. A state may be listed as accepting more than once. -/
structure Automaton where
  table : Table
  start : Nat
  accepting : List Nat

namespace Automaton

/-- Whether a state is accepting. -/
def isAccepting (a : Automaton) (state : Nat) : Bool := a.accepting.contains state

/-- The state reached from the start over a word, if there is a path. -/
def run (a : Automaton) (word : List Char) : Option Nat := a.table.run a.start word

/-- Whether there is a path over a word. -/
def follows (a : Automaton) (word : List Char) : Bool := (a.run word).isSome

/-- Whether there is a path over a word to an accepting state. -/
def accepts (a : Automaton) (word : List Char) : Bool := (a.run word).any a.isAccepting

/-- The accepting states in ascending order, each once. -/
def acceptingStates (a : Automaton) : List Nat := (a.accepting.mergeSort).eraseDups

@[simp] theorem isAccepting_iff (a : Automaton) (state : Nat) :
    a.isAccepting state = true ↔ state ∈ a.accepting := by
  simp [isAccepting]

@[simp] theorem run_nil (a : Automaton) : a.run [] = some a.start := rfl

/-- Only the start state decides about the empty word. -/
theorem accepts_nil (a : Automaton) : a.accepts [] = a.isAccepting a.start := rfl

/-- A path over a word is a path over what the word starts with. -/
theorem follows_of_follows_append {a : Automaton} {v w : List Char} (h : a.follows (v ++ w)) :
    a.follows v := by
  unfold follows run at *
  rw [Table.run_append] at h
  cases hv : a.table.run a.start v with
  | none => simp [hv] at h
  | some state => rfl

/-- An accepted word has a path. -/
theorem follows_of_accepts {a : Automaton} {w : List Char} (h : a.accepts w) : a.follows w := by
  unfold accepts at h
  unfold follows
  cases hw : a.run w with
  | none => simp [hw] at h
  | some state => rfl

end Automaton

end CircuitScan
