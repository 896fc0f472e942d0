import CircuitScan.Fault
import CircuitScan.Recognizer
import CircuitScan.Token

/-!
# CircuitScan.Matcher

A recognizer at work on one text. A matcher holds the state it is in and the characters that led
there, and it can take back one step:

1. `consume` follows an edge; without one the matcher returns to the start;
2. `accept` makes a token of the text and returns to the start;
3. `rewind` returns to the state before the last step. Its character is dropped only if nothing
   but that step came before; the state is taken back even if a return to the start came between.
-/

namespace CircuitScan

/-- A recognizer at work. -/
structure Matcher where
  recognizer : Recognizer
  state : Nat
  /-- the state before the last step -/
  previous : Nat
  text : String
  /-- whether the last operation was a step, so that its character can be dropped -/
  rewindable : Bool

namespace Matcher

/-- A matcher that has read nothing. -/
def fresh (r : Recognizer) : Matcher :=
  { recognizer := r, state := r.automaton.start, previous := r.automaton.start, text := "",
    rewindable := false }

/-- Whether the text so far is accepted. -/
def isAccepting (m : Matcher) : Bool := m.recognizer.automaton.isAccepting m.state

/-- The state behind the edge on a character. -/
def target? (m : Matcher) (c : Char) : Option Nat := m.recognizer.automaton.table.get? m.state c

/-- Returns to the start. The state before the last step stays as it is. -/
def reset (m : Matcher) : Matcher :=
  { m with state := m.recognizer.automaton.start, text := "", rewindable := false }

/-- Follows the edge on a character and says whether there was one. -/
def consume (m : Matcher) (c : Char) : Bool × Matcher :=
  match m.target? c with
  | some next =>
    (true, { m with state := next, previous := m.state, text := m.text.push c,
                    rewindable := true })
  | none => (false, m.reset)

/-- Whether the matcher accepts and would still accept after one more character. -/
def peek (m : Matcher) (c : Char) : Bool :=
  m.isAccepting && (m.target? c).any m.recognizer.automaton.isAccepting

/-- Makes a token of the text so far and returns to the start. -/
def accept (m : Matcher) (start stop : Position) : Except Fault (Token × Matcher) :=
  if m.isAccepting then .ok (⟨m.recognizer.kind, m.text, start, stop⟩, m.reset)
  else .error (.notAccepting m.recognizer.name m.state)

/-- Returns to the state before the last step. -/
def rewind (m : Matcher) : Matcher :=
  if m.rewindable then
    { m with state := m.previous, text := String.ofList m.text.toList.dropLast,
             rewindable := false }
  else { m with state := m.previous }

/-! ## What the operations keep -/

@[simp] theorem recognizer_reset (m : Matcher) : m.reset.recognizer = m.recognizer := rfl

@[simp] theorem state_reset (m : Matcher) : m.reset.state = m.recognizer.automaton.start := rfl

@[simp] theorem text_reset (m : Matcher) : m.reset.text = "" := rfl

@[simp] theorem recognizer_consume (m : Matcher) (c : Char) :
    (m.consume c).2.recognizer = m.recognizer := by
  unfold consume
  split <;> rfl

/-- A step succeeds where there is an edge. -/
theorem consume_fst (m : Matcher) (c : Char) : (m.consume c).1 = (m.target? c).isSome := by
  unfold consume
  split <;> simp_all

/-- Only an accepting matcher makes a token. -/
theorem accept_eq_ok_iff (m : Matcher) (start stop : Position) :
    (∃ r, m.accept start stop = .ok r) ↔ m.isAccepting := by
  unfold accept
  split <;> simp_all

end Matcher

end CircuitScan
