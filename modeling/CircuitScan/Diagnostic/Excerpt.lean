import CircuitScan.Diagnostic
import CircuitScan.Text.Blank
import CircuitScan.Text.Line

/-!
# CircuitScan.Diagnostic.Excerpt

A diagnostic with the line it is about and a caret under the column:

```
Error: UnrecognisedCharacter (`#` cannot start any token)
-> adder.circuit:2:10
  |
2 | in a # b;
  | -----^
```

1. The line is shown without its indentation (spaces and tabs) and without the white space at
   its end.
2. The caret stands under the column less the indentation, and at least under the first shown
   character; dashes lead to it.
3. The bars stand in the column after the row number and a space.
4. A row that the source does not have is shown as an empty line.
-/

namespace CircuitScan.Diagnostic

/-- Characters of indentation. -/
def isIndent (c : Char) : Bool := c = ' ' || c = '\t'

/-- A line as an excerpt shows it. -/
def shownLine (line : List Char) : List Char :=
  Text.trimEnd (line.dropWhile isIndent)

/-- The number of characters from the margin to the caret, the caret included. -/
def caretOffset (line : List Char) (col : Nat) : Nat :=
  max 1 (col - (line.takeWhile isIndent).length)

/-- The text `s`, with `fill` in front of it up to `width` characters. -/
def padLeft (fill : Char) (width : Nat) (s : List Char) : List Char :=
  List.replicate (width - s.length) fill ++ s

/-- The first line of an excerpt. -/
def heading (d : Diagnostic) : String :=
  match d.cause.tip? with
  | none => "Error: " ++ d.cause.name
  | some tip => "Error: " ++ d.cause.name ++ " (" ++ tip ++ ")"

/-- The line that shows the source, without the row number. -/
def sourceLine (d : Diagnostic) (source : String) : List Char :=
  ((Text.lineAt? source d.position.row).getD "").toList

/-- The excerpt of a diagnostic on the text of a file. -/
def excerpt (d : Diagnostic) (file source : String) : String :=
  let row := d.position.row.toNat.repr
  let line := d.sourceLine source
  let bar := String.ofList (padLeft ' ' (row.length + 2) ['|'])
  let shown := String.ofList (shownLine line)
  let caret := String.ofList (padLeft '-' (caretOffset line d.position.col.toNat) ['^'])
  d.heading ++ "\n" ++
  "-> " ++ file ++ ":" ++ d.position.render ++ "\n" ++
  bar ++ "\n" ++
  row ++ " | " ++ shown ++ "\n" ++
  bar ++ " " ++ caret ++ "\n"

end CircuitScan.Diagnostic
