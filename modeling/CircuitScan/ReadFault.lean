/-!
# CircuitScan.ReadFault

Why the text of a file cannot be had.
-/

namespace CircuitScan

/-- Why a file cannot be read as text. -/
inductive ReadFault where
  /-- nothing has that path -/
  | missing
  /-- the path leads to a directory -/
  | isDirectory
  /-- a part of the path that should be a directory is a file -/
  | notDirectory
  /-- the bytes are not valid UTF-8 -/
  | notText
  /-- any other answer of the system -/
  | other (text : String)
deriving DecidableEq

/-- The text of a fault, as the system words it. -/
def ReadFault.message : ReadFault → String
  | missing => "No such file or directory (os error 2)"
  | isDirectory => "Is a directory (os error 21)"
  | notDirectory => "Not a directory (os error 20)"
  | notText => "stream did not contain valid UTF-8"
  | other text => text

end CircuitScan
