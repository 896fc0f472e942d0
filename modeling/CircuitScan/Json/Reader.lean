import CircuitScan.Json.Fault

/-!
# CircuitScan.Json.Reader

Readers of JSON text. A reader takes characters off the front of a text and returns a value, or
stops at the first fault.

Lists and objects are read by `elements` and `fields`, which leave the reading of an item to a
reader of their own. So a text can be read straight into the type it is meant for, and a fault of
shape is found at the character where it shows. Both are bounded by a number of items; any bound
above the length of the text is as good as none.
-/

namespace CircuitScan.Json

/-- A reader takes characters off the front of a text. -/
abbrev Reader (α : Type) := StateT (List Char) (Except Fault) α

/-- How closely a value is read. A value that is needed is read in full. One that is not needed is
skimmed: its brackets, words and quotes have to be right, but no number is too great for it and a
half of a surrogate pair may stand alone. -/
inductive Rigor where
  | full
  | skim
deriving DecidableEq

/-! ## Characters -/

/-- The white space between the parts of a JSON text. -/
def isSpace (c : Char) : Bool := c = ' ' || c = '\t' || c = '\n' || c = '\r'

/-- The next character behind white space, which stays in the text. -/
def next : Reader (Option Char) := do
  modify (·.dropWhile isSpace)
  return (← get).head?

/-- Takes one character off. -/
def skip : Reader PUnit := modify List.tail

/-- Takes off the rest of a word whose first character is known. -/
def word : List Char → Reader PUnit
  | [] => return
  | c :: cs => do
    match (← get).head? with
    | none => throw .truncated
    | some d =>
      if d = c then
        skip
        word cs
      else throw .malformed

/-- The colon between a key and its value. -/
def colon : Reader PUnit := do
  match ← next with
  | none => throw .truncated
  | some ':' => skip
  | some _ => throw .malformed

/-- Nothing but white space is left. -/
def finish : Reader PUnit := do
  match ← next with
  | none => return
  | some _ => throw .malformed

/-! ## Lists -/

/-- The items of a list behind the first, through the closing bracket. -/
def moreElements : (limit : Nat) → (item : Reader α) → Reader (List α)
  | 0, _ => throw .truncated
  | limit + 1, item => do
    match ← next with
    | none => throw .truncated
    | some ']' =>
      skip
      return []
    | some ',' =>
      skip
      match ← next with
      | none => throw .truncated
      | some ']' => throw .malformed
      | some _ =>
        let x ← item
        let xs ← moreElements limit item
        return x :: xs
    | some _ => throw .malformed

/-- The items of a list behind its opening bracket, through the closing one. -/
def elements (limit : Nat) (item : Reader α) : Reader (List α) := do
  match ← next with
  | none => throw .truncated
  | some ']' =>
    skip
    return []
  | some _ =>
    let x ← item
    let xs ← moreElements limit item
    return x :: xs

/-! ## Objects -/

/-- The fields of an object behind the first, through the closing brace. -/
def moreFields (key : Reader String) (field : σ → String → Reader σ) :
    (limit : Nat) → σ → Reader σ
  | 0, _ => throw .truncated
  | limit + 1, acc => do
    match ← next with
    | none => throw .truncated
    | some '\x7d' =>
      skip
      return acc
    | some ',' =>
      skip
      match ← next with
      | none => throw .truncated
      | some '"' =>
        skip
        let name ← key
        let acc ← field acc name
        moreFields key field limit acc
      | some _ => throw .malformed
    | some _ => throw .malformed

/-- The fields of an object behind its opening brace, through the closing one. `key` reads a name
behind its opening quote, and `field` reads everything behind a name: the colon and the value. -/
def fields (key : Reader String) (field : σ → String → Reader σ) (limit : Nat) (acc : σ) :
    Reader σ := do
  match ← next with
  | none => throw .truncated
  | some '\x7d' =>
    skip
    return acc
  | some '"' =>
    skip
    let name ← key
    let acc ← field acc name
    moreFields key field limit acc
  | some _ => throw .malformed

end CircuitScan.Json
