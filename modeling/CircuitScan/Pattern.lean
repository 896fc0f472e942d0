import CircuitScan.Label

/-!
# CircuitScan.Pattern

A small language of patterns. A pattern is a sequence of units, each with at most one star behind
it; a unit stands for one character of a set, and a starred unit for any number of them.

| unit | stands for |
|------|------------|
| `a` | the character itself, if it is none of `*`, `[`, `]` and the backslash |
| `\t`, `\n`, `\r` | tab, line feed, carriage return |
| `\c` | any other character `c`, taken as itself |
| `[label]` | the characters of the label (see `Label.expand`), which holds no bracket |

A pattern is read in one pass from left to right, and its first fault is reported.
-/

namespace CircuitScan.Pattern

/-- A set of characters, to be taken once or, if starred, any number of times. -/
structure Unit where
  characters : List Char
  starred : Bool := false
deriving DecidableEq

/-! ## Faults -/

/-- How a pattern breaks the grammar. -/
inductive Defect where
  | nothingToRepeat
  | repeatedStar
  | unclosedClass
  | nestedClass
  | emptyClass
  | unmatchedBracket
  | trailingBackslash
  | noUnits
deriving DecidableEq

/-- A defect in words. -/
def Defect.reason : Defect → String
  | nothingToRepeat => "`*` has nothing to repeat"
  | repeatedStar => "`*` cannot follow `*`"
  | unclosedClass => "unclosed `[`"
  | nestedClass => "classes do not nest"
  | emptyClass => "empty class"
  | unmatchedBracket => "unmatched `]`"
  | trailingBackslash => "trailing `\\`"
  | noUnits => "empty pattern"

/-- The error for a defect of `pattern`. -/
def Defect.toError (pattern : String) (d : Defect) : LoadError :=
  .malformedPattern pattern d.reason

/-! ## Reading -/

/-- What the reader is in the middle of. -/
inductive Mode where
  /-- between two units -/
  | between
  /-- behind a backslash -/
  | escape
  /-- inside brackets, with the label so far -/
  | inClass (label : String)
deriving DecidableEq

/-- The units read so far, the last one first, and what the reader is in the middle of. -/
structure Reader where
  units : List Unit := []
  mode : Mode := .between

/-- The character that an escape stands for. -/
def unescape : Char → Char
  | 't' => '\t'
  | 'n' => '\n'
  | 'r' => '\r'
  | c => c

/-- Puts a star behind the last unit. -/
def star : List Unit → Except Defect (List Unit)
  | [] => .error .nothingToRepeat
  | u :: us => if u.starred then .error .repeatedStar else .ok ({ u with starred := true } :: us)

/-- Reads one character of `pattern`. -/
def Reader.read (pattern : String) (r : Reader) (c : Char) : Except LoadError Reader :=
  match r.mode with
  | .between =>
    match c with
    | '*' =>
      match star r.units with
      | .ok units => .ok ⟨units, .between⟩
      | .error d => .error (d.toError pattern)
    | '[' => .ok ⟨r.units, .inClass ""⟩
    | ']' => .error (Defect.unmatchedBracket.toError pattern)
    | '\\' => .ok ⟨r.units, .escape⟩
    | c => .ok ⟨{ characters := [c] } :: r.units, .between⟩
  | .escape => .ok ⟨{ characters := [unescape c] } :: r.units, .between⟩
  | .inClass label =>
    match c with
    | '[' => .error (Defect.nestedClass.toError pattern)
    | ']' =>
      if label = "" then .error (Defect.emptyClass.toError pattern)
      else (Label.expand label).map fun cs => ⟨{ characters := cs } :: r.units, .between⟩
    | c => .ok ⟨r.units, .inClass (label.push c)⟩

/-- The units of a pattern that ends here. -/
def Reader.finish (pattern : String) (r : Reader) : Except LoadError (List Unit) :=
  match r.mode with
  | .escape => .error (Defect.trailingBackslash.toError pattern)
  | .inClass _ => .error (Defect.unclosedClass.toError pattern)
  | .between =>
    if r.units = [] then .error (Defect.noUnits.toError pattern) else .ok r.units.reverse

/-- The units of a pattern, in order. -/
def parse (pattern : String) : Except LoadError (List Unit) := do
  let r ← pattern.toList.foldlM (Reader.read pattern) {}
  r.finish pattern

end CircuitScan.Pattern
