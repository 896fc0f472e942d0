/-!
# CircuitScan.Kind

The kinds of token: ten reserved words, eleven marks, identifiers, numbers, and the white space
that never reaches the token list. A kind has two spellings: the name that listings print and the
tag that recognizer files use.
-/

namespace CircuitScan

/-- The kind of a token. -/
inductive Kind where
  | and | or | not | xor | input | output | bits | clock | register | circuit
  | leftAngle | rightAngle | equals | leftBrace | rightBrace | leftParen | rightParen
  | semicolon | comma | question | colon
  | identifier | number
  | ignored
deriving DecidableEq

namespace Kind

/-- Every kind, in the order of declaration. -/
def all : List Kind :=
  [and, or, not, xor, input, output, bits, clock, register, circuit,
   leftAngle, rightAngle, equals, leftBrace, rightBrace, leftParen, rightParen,
   semicolon, comma, question, colon,
   identifier, number,
   ignored]

theorem mem_all (k : Kind) : k ∈ all := by
  cases k <;> decide

/-- The name of a kind in token listings and messages. -/
def name : Kind → String
  | and => "And"
  | or => "Or"
  | not => "Not"
  | xor => "Xor"
  | input => "In"
  | output => "Out"
  | bits => "Bits"
  | clock => "Clock"
  | register => "Register"
  | circuit => "Circuit"
  | leftAngle => "LeftAngle"
  | rightAngle => "RightAngle"
  | equals => "Equals"
  | leftBrace => "LeftBrace"
  | rightBrace => "RightBrace"
  | leftParen => "LeftParen"
  | rightParen => "RightParen"
  | semicolon => "Semicolon"
  | comma => "Comma"
  | question => "Question"
  | colon => "Colon"
  | identifier => "Identifier"
  | number => "Number"
  | ignored => "Ignored"

/-- The tag of a kind in recognizer files. -/
def tag : Kind → String
  | and => "AND"
  | or => "OR"
  | not => "NOT"
  | xor => "XOR"
  | input => "IN"
  | output => "OUT"
  | bits => "BITS"
  | clock => "CLOCK"
  | register => "REGISTER"
  | circuit => "CIRCUIT"
  | leftAngle => "LEFT_ANGLE"
  | rightAngle => "RIGHT_ANGLE"
  | equals => "EQUALS"
  | leftBrace => "LEFT_BRACE"
  | rightBrace => "RIGHT_BRACE"
  | leftParen => "LEFT_PAREN"
  | rightParen => "RIGHT_PAREN"
  | semicolon => "SEMICOLON"
  | comma => "COMMA"
  | question => "QUESTION"
  | colon => "COLON"
  | identifier => "IDENTIFIER"
  | number => "NUMBER"
  | ignored => "IGNORED"

/-- The kind with a given tag. -/
def ofTag? (tag : String) : Option Kind :=
  all.find? fun k => k.tag = tag

/-- A tag names its own kind, so no two kinds share one. -/
@[simp] theorem ofTag?_tag (k : Kind) : ofTag? k.tag = some k := by
  cases k <;> decide

/-- Whether the kind is a reserved word. -/
def isKeyword : Kind → Bool
  | and | or | not | xor | input | output | bits | clock | register | circuit => true
  | _ => false

end Kind

end CircuitScan
