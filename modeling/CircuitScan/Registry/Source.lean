import CircuitScan.Json.Value
import CircuitScan.Registry.Declaration

/-!
# CircuitScan.Registry.Source

Recognizer files: JSON texts that list the entries of a registry.

```
{"recognizers": [
  {"name": "and", "kind": "AND", "pattern": "and"},
  {"name": "zeros", "kind": "NUMBER", "start": 0, "accept": [1],
   "graph": {"0": {"0": 1}, "1": {"0": 1}}}
]}
```

1. A file is an object with the list under `recognizers`, and other keys are skimmed; or a list
   with the list of recognizers as its one item.
2. A recognizer is an object with a name and a kind, each given once. A kind is a tag, or an
   object with a tag as its one key and `null` behind it; a tag that is unknown does not fit, and
   any other value in place of a kind or of its key is malformed.
3. Its other keys describe the automaton: by a pattern, or else by a start state, accepting states
   and a graph. The pattern counts if both fit, and keys that fit neither are left alone.
4. The states of a graph are written as keys, in decimal digits.

The whole text is read before the first automaton is built.
-/

namespace CircuitScan

open Json (Reader Value)

namespace Declaration

/-! ## Bodies -/

/-- The value of a key that is given exactly once. -/
def unique? (key : String) (fields : List (String × Value)) : Option Value :=
  match fields.filter (·.1 = key) with
  | [(_, v)] => some v
  | _ => none

/-- The text of a text. -/
def text? : Value → Option String
  | .text s => some s
  | _ => none

/-- The number of a natural number. -/
def natural? : Value → Option Nat
  | .natural n => some n
  | _ => none

/-- The numbers of a list of natural numbers. -/
def naturals? : Value → Option (List Nat)
  | .list vs => vs.mapM natural?
  | _ => none

/-- An object as an association; of a repeated key the last value counts. -/
def assignAll? (read : Value → Option β) : Value → Option (List (String × β))
  | .object fields =>
    fields.foldlM (fun acc (key, v) => do return Assoc.put key (← read v) acc) []
  | _ => none

/-- A body by its pattern. -/
def patternBody? (fields : List (String × Value)) : Option WrittenBody := do
  let text ← (unique? "pattern" fields).bind text?
  return .pattern text

/-- A body by its graph. -/
def graphBody? (fields : List (String × Value)) : Option WrittenBody := do
  let start ← (unique? "start" fields).bind natural?
  let accepting ← (unique? "accept" fields).bind naturals?
  let rows ← (unique? "graph" fields).bind (assignAll? (assignAll? natural?))
  return .graph start accepting rows

/-- The body that the fields of a recognizer describe. -/
def body? (fields : List (String × Value)) : Option WrittenBody :=
  patternBody? fields <|> graphBody? fields

/-! ## Reading -/

/-- Lists and objects that may lie in each other, the file itself included. -/
def depthLimit : Nat := 127

/-- The fields of a recognizer that have been read. -/
structure Parts where
  name : Option String := none
  kind : Option Kind := none
  others : Array (String × Value) := #[]

/-- A name. -/
def readName : Reader String := do
  match ← Json.next with
  | some '"' =>
    Json.skip
    Json.text .full
  | _ => Json.mismatch

/-- The kind of a tag. -/
def kindOf (tag : String) : Reader Kind :=
  match Kind.ofTag? tag with
  | some k => return k
  | none => throw .mismatched

/-- The word `null`. -/
def readNull : Reader PUnit := do
  match ← Json.next with
  | some 'n' =>
    Json.skip
    Json.word ['u', 'l', 'l']
  | _ => Json.mismatch

/-- The key of an object that has to have one. Anything but a quote is malformed there. -/
def readKey : Reader String := do
  match ← Json.next with
  | none => throw .truncated
  | some '"' =>
    Json.skip
    Json.text .full
  | some _ => throw .malformed

/-- A kind. -/
def readKind : Reader Kind := do
  match ← Json.next with
  | none => throw .truncated
  | some '"' =>
    Json.skip
    kindOf (← Json.text .full)
  | some '\x7b' =>
    Json.skip
    let kind ← kindOf (← readKey)
    Json.colon
    readNull
    match ← Json.next with
    | none => throw .truncated
    | some '\x7d' =>
      Json.skip
      return kind
    | some _ => throw .malformed
  | some _ => throw .malformed

/-- A field of a recognizer, behind its key. A name or kind that is given again is a fault at its
key already. -/
def readField (limit : Nat) (p : Parts) (key : String) : Reader Parts :=
  if key = "name" then
    if p.name.isSome then throw .mismatched
    else do
      Json.colon
      return { p with name := some (← readName) }
  else if key = "kind" then
    if p.kind.isSome then throw .mismatched
    else do
      Json.colon
      return { p with kind := some (← readKind) }
  else do
    Json.colon
    let v ← Json.value .full limit (depthLimit - 3)
    return { p with others := p.others.push (key, v) }

/-- The declaration that the fields of a recognizer make. -/
def ofParts? (p : Parts) : Option Declaration := do
  let name ← p.name
  let kind ← p.kind
  let body ← body? p.others.toList
  return { name, kind, body }

/-- A recognizer. -/
def readOne (limit : Nat) : Reader Declaration := do
  match ← Json.next with
  | some '\x7b' =>
    Json.skip
    match ofParts? (← Json.fields (Json.text .full) (readField limit) limit {}) with
    | some d => return d
    | none => throw .mismatched
  | _ => Json.mismatch

/-- The list of recognizers. -/
def readList (limit : Nat) : Reader (List Declaration) := do
  match ← Json.next with
  | some '[' =>
    Json.skip
    Json.elements limit (readOne limit)
  | _ => Json.mismatch

/-- A field of a file, behind its key. -/
def readTopField (limit : Nat) (found : Option (List Declaration)) (key : String) :
    Reader (Option (List Declaration)) :=
  if key = "recognizers" then
    if found.isSome then throw .mismatched
    else do
      Json.colon
      return some (← readList limit)
  else do
    Json.colon
    let _ ← Json.value .skim limit limit
    return found

/-- The declarations of a file, through its last bracket. -/
def readFile (limit : Nat) : Reader (List Declaration) := do
  match ← Json.next with
  | some '[' =>
    Json.skip
    match ← Json.next with
    | none => throw .truncated
    | some ']' => throw .mismatched
    | some _ =>
      let ds ← readList limit
      match ← Json.next with
      | none => throw .truncated
      | some ']' =>
        Json.skip
        return ds
      | some _ => throw .malformed
  | some '\x7b' =>
    Json.skip
    match ← Json.fields (Json.text .full) (readTopField limit) limit none with
    | some ds => return ds
    | none => throw .mismatched
  | _ => Json.mismatch

/-- The declarations of a whole text. -/
def decode (text : String) : Except Json.Fault (List Declaration) := do
  let cs := text.toList
  let limit := cs.length + 1
  let (ds, _) ← (do
    let ds ← readFile limit
    Json.finish
    return ds : Reader (List Declaration)).run cs
  return ds

end Declaration

/-! ## Registries -/

namespace Registry

/-- The registry of the text of a recognizer file. -/
def ofText (text : String) : Except LoadError Registry := do
  let ds ← (Declaration.decode text).mapError .malformedFile
  ds.foldlM addDeclaration empty

end Registry

end CircuitScan
