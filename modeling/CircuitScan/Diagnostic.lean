import CircuitScan.Position
import CircuitScan.Text.Quoted

/-!
# CircuitScan.Diagnostic

What a scan reports about text that is no token. A report never stops the scan.
-/

namespace CircuitScan

/-- Why a piece of source text is no token. -/
inductive Cause where
  /-- no recognizer can start with the character -/
  | unrecognised (character : Char)
  /-- a slash stands alone, so it opens no comment -/
  | loneSlash
  /-- the text starts a token that never becomes complete -/
  | unterminated (text : String)
deriving DecidableEq

namespace Cause

/-- The heading of a report. -/
def name : Cause → String
  | unrecognised _ => "UnrecognisedCharacter"
  | loneSlash => "MalformedComment"
  | unterminated _ => "UnterminatedToken"

/-- What is wrong, in a sentence. -/
def message : Cause → String
  | unrecognised c => "unrecognised character " ++ Text.quoteChar c
  | loneSlash => "`/` is not followed by a second `/`"
  | unterminated text => "input ended a token early: " ++ Text.quote text

/-- A hint on how to mend it, where there is one. -/
def tip? : Cause → Option String
  | unrecognised c => some ("`" ++ Text.escapeAscii c ++ "` cannot start any token")
  | loneSlash => some "comments start with `//`"
  | unterminated _ => none

end Cause

/-- A cause and the position of the first character it is about. -/
structure Diagnostic where
  cause : Cause
  position : Position
deriving DecidableEq

/-- The report on one line. -/
def Diagnostic.message (d : Diagnostic) : String :=
  d.position.render ++ ": " ++ d.cause.message

end CircuitScan
