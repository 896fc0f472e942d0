import CircuitScan.Text.Split

/-!
# CircuitScan.Text.Line

The lines of a source text. Line feeds divide lines, and a text that ends in a line feed has an
empty last line. One carriage return in front of the line feed (or the end of the text) belongs
to the line's end and not to the line.
-/

namespace CircuitScan.Text

/-- A line without the carriage return that ends it; at most one is taken off. -/
def dropReturn (line : List Char) : List Char :=
  if line.getLast? = some '\r' then line.dropLast else line

theorem dropReturn_concat (cs : List Char) (x : Char) :
    dropReturn (cs ++ [x]) = if x = '\r' then cs else cs ++ [x] := by
  simp [dropReturn]

/-- The line with number `row`, counted from one, without its line end. -/
def lineAt? (source : String) (row : UInt32) : Option String :=
  if row = 0 then none
  else (splitOn '\n' source.toList)[row.toNat - 1]?.map fun line => String.ofList (dropReturn line)

@[simp] theorem lineAt?_zero (source : String) : lineAt? source 0 = none := rfl

end CircuitScan.Text
