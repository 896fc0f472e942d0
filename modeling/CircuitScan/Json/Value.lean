import CircuitScan.Json.Number
import CircuitScan.Json.Text

/-!
# CircuitScan.Json.Value

Whole values. A list or an object may lie only so deep in others: each takes one from the depth
that is left, and with none left an opening bracket is malformed.
-/

namespace CircuitScan.Json

/-- A JSON value. The fields of an object stay in the order of the text, repeated ones too. -/
inductive Value where
  | null
  | bool (value : Bool)
  /-- a natural number that is written as plain digits and fits a word -/
  | natural (value : Nat)
  /-- any other number -/
  | otherNumber
  | text (value : String)
  | list (items : List Value)
  | object (fields : List (String × Value))

/-- A word, number or text; `first` is its first character, which is still in the text. -/
def scalar (rigor : Rigor) (first : Char) : Reader Value := do
  match first with
  | 'n' =>
    skip
    word ['u', 'l', 'l']
    return .null
  | 't' =>
    skip
    word ['r', 'u', 'e']
    return .bool true
  | 'f' =>
    skip
    word ['a', 'l', 's', 'e']
    return .bool false
  | '"' =>
    skip
    return .text (← text rigor)
  | c =>
    if c = '-' || c.isDigit then
      match ← number rigor with
      | some n => return .natural n
      | none => return .otherNumber
    else throw .malformed

/-- A value with at most `depth` lists and objects around its innermost parts. -/
def value (rigor : Rigor) (limit : Nat) : (depth : Nat) → Reader Value
  | 0 => do
    match ← next with
    | none => throw .truncated
    | some c => scalar rigor c
  | depth + 1 => do
    match ← next with
    | none => throw .truncated
    | some '[' =>
      skip
      return .list (← elements limit (value rigor limit depth))
    | some '\x7b' =>
      skip
      let field := fun (acc : Array (String × Value)) (name : String) => do
        colon
        let v ← value rigor limit depth
        return acc.push (name, v)
      return .object (← fields (text rigor) field limit #[]).toList
    | some c => scalar rigor c

/-- The fault of a value that is not of the type asked for. Where a list or an object begins that
is a fault of shape at once; a scalar is read first and may be faulty itself. -/
def mismatch : Reader α := do
  match ← next with
  | none => throw .truncated
  | some '[' => throw .mismatched
  | some '\x7b' => throw .mismatched
  | some c =>
    let _ ← scalar .full c
    throw .mismatched

end CircuitScan.Json
