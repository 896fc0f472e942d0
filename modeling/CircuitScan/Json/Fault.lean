/-!
# CircuitScan.Json.Fault

The three ways in which a text fails to be the JSON value that is asked for. The text is read
from front to back, and the first fault decides.
-/

namespace CircuitScan.Json

/-- Why a text cannot be read. -/
inductive Fault where
  /-- the text ends too early and is fine so far -/
  | truncated
  /-- the text is not JSON -/
  | malformed
  /-- the text is JSON of the wrong shape -/
  | mismatched
deriving DecidableEq

/-- A fault in words. -/
def Fault.message : Fault → String
  | truncated => "the text ends too early"
  | malformed => "the text is not JSON"
  | mismatched => "the text has the wrong shape"

end CircuitScan.Json
