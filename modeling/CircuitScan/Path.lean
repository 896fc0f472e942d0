import CircuitScan.Text.Split

/-!
# CircuitScan.Path

Paths of files, as texts with slashes between their parts. Empty parts and parts that are a single
dot stand for the directory they are in.
-/

namespace CircuitScan.Path

/-- The parts of a path, from left to right. -/
def parts (path : String) : List String :=
  (Text.splitOn '/' path.toList).map String.ofList

/-- The name of the file that a path leads to, if its last part is a name. -/
def fileName? (path : String) : Option String :=
  ((parts path).filter fun p => p ≠ "" && p ≠ ".").getLast?.filter (· ≠ "..")

/-- What follows the last dot of the file name. A dot in front of the whole name does not count. -/
def extension? (path : String) : Option String := do
  let name ← fileName? path
  match (Text.splitOn '.' name.toList).reverse with
  | [] => none
  | last :: before =>
    if before.all (·.isEmpty) && before.length ≤ 1 then none else some (String.ofList last)

end CircuitScan.Path
