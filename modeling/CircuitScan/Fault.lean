import CircuitScan.Text.Quoted

/-!
# CircuitScan.Fault

The two ways in which a request to a scanner or a matcher can break its contract.
-/

namespace CircuitScan

/-- A broken contract. -/
inductive Fault where
  /-- a position would leave the range of its numbers -/
  | positionOverflow
  /-- a token is asked of a matcher that does not accept its text -/
  | notAccepting (recognizer : String) (state : Nat)
deriving DecidableEq

/-- A fault in words. -/
def Fault.message : Fault → String
  | positionOverflow => "attempt to add with overflow"
  | notAccepting recognizer state =>
    "state " ++ state.repr ++ " of recognizer " ++ Text.quote recognizer ++
      " is not an accept state"

end CircuitScan
