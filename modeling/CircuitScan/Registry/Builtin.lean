import CircuitScan.Registry.Entry

/-!
# CircuitScan.Registry.Builtin

The recognizers of the circuit language: its reserved words, its marks, identifiers, numbers and
white space. Reserved words stand before identifiers, so a word that is both is reserved.
-/

namespace CircuitScan.Registry

/-- An entry with a pattern. -/
def patternEntry (name : String) (kind : Kind) (text : String) : Entry :=
  { name, kind, body := .pattern text }

/-- The reserved words. -/
def wordEntries : List Entry :=
  [ patternEntry "and" .and "and",
    patternEntry "or" .or "or",
    patternEntry "not" .not "not",
    patternEntry "xor" .xor "xor",
    patternEntry "in" .input "in",
    patternEntry "out" .output "out",
    patternEntry "bits" .bits "bits",
    patternEntry "clock" .clock "clock",
    patternEntry "register" .register "register",
    patternEntry "circuit" .circuit "circuit" ]

/-- The marks, each a character of its own. -/
def markEntries : List Entry :=
  [ patternEntry "<" .leftAngle "<",
    patternEntry ">" .rightAngle ">",
    patternEntry "=" .equals "=",
    patternEntry "\x7b" .leftBrace "\x7b",
    patternEntry "\x7d" .rightBrace "\x7d",
    patternEntry "(" .leftParen "(",
    patternEntry ")" .rightParen ")",
    patternEntry ";" .semicolon ";",
    patternEntry "," .comma ",",
    patternEntry "?" .question "?",
    patternEntry ":" .colon ":" ]

/-- Identifiers: letters, digits and underscores, with no digit in front. -/
def identifierEntry : Entry where
  name := "identifier"
  kind := .identifier
  body := .graph 0 [1]
    ⟨[(0, [("a-z", 1), ("A-Z", 1), ("_", 1)]),
      (1, [("a-z", 1), ("A-Z", 1), ("0-9", 1), ("_", 1)])]⟩

/-- Numbers: a zero, or digits with no zero in front. -/
def numberEntry : Entry where
  name := "number"
  kind := .number
  body := .graph 0 [1, 2] ⟨[(0, [("0", 1), ("1-9", 2)]), (2, [("0-9", 2)])]⟩

/-- White space: spaces, tabs and line ends. -/
def whitespaceEntry : Entry :=
  patternEntry "whitespace" .ignored "[ |\\t|\\n|\\r][ |\\t|\\n|\\r]*"

/-- The entries of the circuit language, from the highest rank to the lowest. -/
def builtinEntries : List Entry :=
  wordEntries ++ markEntries ++ [identifierEntry, numberEntry, whitespaceEntry]

/-- The recognizers of the circuit language. -/
def builtin : Except LoadError Registry := ofEntries builtinEntries

end CircuitScan.Registry
