import CircuitScan.Diagnostic
import CircuitScan.Matcher
import CircuitScan.Registry

/-!
# CircuitScan.Scanner

Scanning a source text for tokens. All recognizers of a registry run over the text in lock step,
each in a lane of its own:

1. a lane is live until it fails on a character; failing lanes wait for the next token;
2. when a live lane accepts, the token ends unless some accepting live lane can take the next
   character and accept again; the lane of the highest rank makes the token;
3. a text on which all lanes fail is given up as unterminated, and its last character is tried
   again as the first character of a token; a character that can start none is reported;
4. `//` opens a comment to the end of the line, and a slash that stands alone is reported. A slash
   ends the token before it in both cases, so no recognizer ever sees one;
5. the end of the text ends the last token.

Faults in the text are reported beside the tokens and never end the scan.
-/

namespace CircuitScan

/-! ## Lanes -/

/-- A matcher that takes part in the current token as long as it is live. -/
structure Lane where
  matcher : Matcher
  live : Bool

namespace Lane

/-- A lane that has read nothing. -/
def fresh (r : Recognizer) : Lane := ⟨Matcher.fresh r, true⟩

/-- A live lane takes a character, and a failing one drops out. -/
def feed (c : Char) (l : Lane) : Lane :=
  if l.live then
    let (advanced, matcher) := l.matcher.consume c
    ⟨matcher, advanced⟩
  else l

/-- Whether the lane is live and accepts. -/
def isAccepting (l : Lane) : Bool := l.live && l.matcher.isAccepting

/-- Whether the lane accepts and would still accept after one more character. -/
def peek (c : Char) (l : Lane) : Bool := l.live && l.matcher.peek c

/-- The lane in front of a new token. -/
def reset (l : Lane) : Lane := ⟨l.matcher.reset, true⟩

end Lane

/-! ## The scanner -/

/-- A scanner between two characters. -/
structure Scanner where
  /-- one lane for each recognizer, in the order of rank -/
  lanes : List Lane
  /-- the characters of the current token so far -/
  lexeme : String
  /-- the position of the next character -/
  position : Position
  /-- the position of the first character of the current token -/
  start : Position
  inComment : Bool
  tokens : Array Token
  errors : Array Diagnostic

/-- What a scan returns. -/
structure Scan where
  tokens : List Token
  errors : List Diagnostic
deriving DecidableEq

namespace Scanner

/-- A scanner for the recognizers of a registry. -/
def ofRegistry (r : Registry) : Scanner where
  lanes := r.recognizers.map Lane.fresh
  lexeme := ""
  position := .origin
  start := .origin
  inComment := false
  tokens := #[]
  errors := #[]

/-! ### The current token -/

/-- Whether some lane is live. -/
def isLive (s : Scanner) : Bool := s.lanes.any (·.live)

/-- The accepting lane of the highest rank. -/
def best? (s : Scanner) : Option Lane := s.lanes.find? (·.isAccepting)

/-- Whether an accepting lane would still accept after the next character. -/
def canExtend (s : Scanner) (next : Option Char) : Bool :=
  next.any fun c => s.lanes.any (·.peek c)

/-- Hands a character to the live lanes. -/
def feed (s : Scanner) (c : Char) : Scanner := { s with lanes := s.lanes.map (·.feed c) }

/-- Adds a report. -/
def report (s : Scanner) (cause : Cause) (position : Position) : Scanner :=
  { s with errors := s.errors.push ⟨cause, position⟩ }

/-- Makes all lanes ready for a new token. -/
def resetAll (s : Scanner) : Scanner :=
  { s with lanes := s.lanes.map (·.reset), lexeme := "" }

/-- Ends the current token at `stop` with the token of a lane. -/
def take (s : Scanner) (l : Lane) (stop : Position) : Except Fault Scanner := do
  let (token, _) ← l.matcher.accept s.start stop
  return { s with tokens := s.tokens.push token }.resetAll

/-- Gives the current token up as unterminated. -/
def abandon (s : Scanner) : Scanner :=
  (s.report (.unterminated s.lexeme) s.start).resetAll

/-- Ends the current token in front of `stop`, if there is one: with the token of the best lane,
or as unterminated. -/
def settle (s : Scanner) (stop : Position) : Except Fault Scanner :=
  if s.lexeme = "" then .ok s
  else match s.best? with
    | some l => s.take l stop
    | none => .ok s.abandon

/-! ### Characters -/

/-- Adds a character that some lane took to the current token, and ends the token if it is
complete and cannot go on with `next`. -/
def grow (s : Scanner) (c : Char) (next : Option Char) : Except Fault Scanner := do
  let s := { s with lexeme := s.lexeme.push c }
  match s.best? with
  | none => return s
  | some l =>
    if s.canExtend next then return s
    else
      let s ← s.take l s.position
      return { s with start := s.position }

/-- Reports a character that starts no token. -/
def reject (s : Scanner) (c : Char) (here : Position) : Scanner :=
  let s := (s.report (.unrecognised c) here).resetAll
  { s with start := s.position }

/-- The lanes behind the character at `here`. If none is live and a token was begun, that token
is given up and the character starts a new one. -/
def advance (s : Scanner) (c : Char) (here : Position) : Scanner :=
  let fed := s.feed c
  if fed.isLive || s.lexeme = "" then fed
  else { fed.abandon with start := here }.feed c

/-- Takes the character `c`, with `next` behind it. -/
def step (s : Scanner) (c : Char) (next : Option Char) : Except Fault Scanner := do
  let here := s.position
  match here.advance? c with
  | none => throw .positionOverflow
  | some after =>
    let s := { s with position := after }
    if s.inComment then
      if c = '\n' then return { s with inComment := false, start := after }
      else return s
    else if c = '/' then
      let s ← s.settle here
      if next = some '/' then return { s with inComment := true }
      else return { s.report .loneSlash here with start := after }
    else
      let s := s.advance c here
      if s.isLive then s.grow c next
      else return s.reject c here

/-- Takes all characters of a list. -/
def run (s : Scanner) : List Char → Except Fault Scanner
  | [] => .ok s
  | c :: cs => (s.step c cs.head?).bind fun s => s.run cs

/-! ### Whole texts -/

/-- The scanner in front of a new text, whatever it did before. -/
def restart (s : Scanner) : Scanner :=
  { s.resetAll with
    position := .origin, start := .origin, inComment := false, tokens := #[], errors := #[] }

/-- Ends the scan behind the last character. -/
def finish (s : Scanner) : Except Fault Scanner := do
  let s ← if s.inComment then .ok s else s.settle s.position
  return s.resetAll

/-- The results of a scan. Ignored tokens are left out. -/
def result (s : Scanner) : Scan where
  tokens := s.tokens.toList.filter fun t => t.kind ≠ .ignored
  errors := s.errors.toList

/-- Scans a source text, and returns the scanner for the next one. -/
def tokenize (s : Scanner) (source : String) : Except Fault (Scan × Scanner) := do
  let s ← s.restart.run source.toList
  let s ← s.finish
  return (s.result, s)

end Scanner

/-- The tokens and reports of a source text under the recognizers of a registry. -/
def Registry.tokenize (r : Registry) (source : String) : Except Fault Scan := do
  let (scan, _) ← (Scanner.ofRegistry r).tokenize source
  return scan

end CircuitScan
