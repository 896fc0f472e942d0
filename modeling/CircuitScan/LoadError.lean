import CircuitScan.Json.Fault
import CircuitScan.Kind
import CircuitScan.ReadFault
import CircuitScan.Text.Quoted

/-!
# CircuitScan.LoadError

Why a set of recognizers cannot be built. Faults inside one recognizer's table are reported with
the recognizer's name around them, and the name is put around them only once.
-/

namespace CircuitScan

/-- Why a set of recognizers cannot be built. -/
inductive LoadError where
  /-- a key of a graph names no state -/
  | invalidState (key : String)
  /-- a state has an edge with an empty label -/
  | emptyLabel (state : Nat)
  /-- a backslash in a label stands before a character that has no escape -/
  | illegalEscape (item : String)
  /-- a label stands for no set of characters -/
  | unresolvableClass (label : String)
  /-- a state would have two targets on one character -/
  | conflict (state : Nat) (character : Char) (existing requested : Nat)
  /-- a pattern does not follow the grammar -/
  | malformedPattern (pattern reason : String)
  /-- a recognizer accepts the empty text -/
  | nullable (name : String)
  /-- a name is already taken -/
  | duplicate (name : String)
  /-- no token can be made of a kind -/
  | unboundKind (kind : Kind)
  /-- a fault inside a recognizer -/
  | inRecognizer (name : String) (cause : LoadError)
  /-- a recognizer file is no JSON text of the right shape -/
  | malformedFile (fault : Json.Fault)
  /-- a recognizer file cannot be read -/
  | unreadable (path : String) (fault : ReadFault)
deriving DecidableEq

namespace LoadError

/-- An error in a sentence. -/
def message : LoadError → String
  | invalidState key => Text.quote key ++ " is not a state id"
  | emptyLabel state => "empty transition label on state " ++ state.repr
  | illegalEscape item => "illegal escape " ++ Text.quote item
  | unresolvableClass label => "cannot resolve character class " ++ Text.quote label
  | conflict state c existing requested =>
    "state " ++ state.repr ++ " moves to both " ++ existing.repr ++ " and " ++ requested.repr ++
      " on " ++ Text.quoteChar c
  | malformedPattern pattern reason =>
    "malformed pattern " ++ Text.quote pattern ++ ": " ++ reason
  | nullable name => "recognizer " ++ Text.quote name ++ " accepts the empty string"
  | duplicate name => "recognizer " ++ Text.quote name ++ " is declared more than once"
  | unboundKind kind => "no acceptor is bound to token kind " ++ kind.name
  | inRecognizer name cause => "recognizer " ++ Text.quote name ++ ": " ++ cause.message
  | malformedFile fault => "invalid recognizer source: " ++ fault.message
  | unreadable path fault => "cannot read " ++ Text.quote path ++ ": " ++ fault.message

/-- The error with the name of its recognizer around it. An error that has a name keeps it. -/
def within (name : String) : LoadError → LoadError
  | inRecognizer inner cause => inRecognizer inner cause
  | cause => inRecognizer name cause

/-- Only the first name counts. -/
@[simp] theorem within_within (outer inner : String) (e : LoadError) :
    (e.within inner).within outer = e.within inner := by
  cases e <;> rfl

end LoadError

end CircuitScan
