import CircuitScan.Command

/-!
# CircuitScan.Main

The program: reads files from the system and prints what a run leaves behind.
-/

namespace CircuitScan.Command

/-- Why the system could not read a file. -/
def readFault : IO.Error → ReadFault
  | .noFileOrDirectory .. => .missing
  | .inappropriateType _ 20 _ => .notDirectory
  | .inappropriateType _ _ _ => .isDirectory
  | e => .other (toString e)

/-- The text of a file. -/
def readFile (path : String) : IO (Except ReadFault String) := do
  try
    let bytes ← IO.FS.readBinFile path
    match String.fromUTF8? bytes with
    | some text => return .ok text
    | none => return .error .notText
  catch e => return .error (readFault e)

end CircuitScan.Command

open CircuitScan in
/-- Runs the command line. -/
def main (args : List String) : IO UInt32 := do
  let outcome ← Command.run Command.readFile args
  IO.print outcome.stdout
  IO.eprint outcome.stderr
  return outcome.exit
