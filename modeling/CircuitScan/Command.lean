import CircuitScan.Command.Options
import CircuitScan.Diagnostic.Excerpt
import CircuitScan.FileTree
import CircuitScan.Registry.Builtin
import CircuitScan.Registry.Source
import CircuitScan.Scanner

/-!
# CircuitScan.Command

The command line: scans one source file, prints a line for each token and an excerpt for each
report. Files are read through a function of the caller, so a run is a pure function of its
arguments wherever that function is pure.

1. The name of the source file is checked first; then the recognizers are loaded; then the source
   is read. The first failure is printed and ends the run.
2. The exit code is 0 if nothing was reported, 1 if something was or the run failed, and 2 if the
   arguments do not fit the usage.
-/

namespace CircuitScan

/-! ## Recognizer files -/

/-- The registry of a recognizer file. -/
def Registry.ofFile [Monad m] (read : String → m (Except ReadFault String)) (path : String) :
    m (Except LoadError Registry) := do
  match ← read path with
  | .error fault => return .error (.unreadable path fault)
  | .ok text => return Registry.ofText text

namespace Command

/-! ## Runs -/

/-- What a run leaves behind. -/
structure Outcome where
  exit : UInt32
  stdout : String := ""
  stderr : String := ""

/-- Why a run fails. -/
inductive Failure where
  /-- the name of the source file has another extension -/
  | notCircuit (path : String)
  /-- the source file cannot be read -/
  | unreadable (path : String) (fault : ReadFault)
  /-- the recognizers cannot be loaded -/
  | load (error : LoadError)
  /-- the scan itself fails -/
  | scan (fault : Fault)

/-- A failure in a sentence. -/
def Failure.message : Failure → String
  | notCircuit path => Text.quote path ++ " does not end with .circuit"
  | unreadable path fault => "failed to read " ++ Text.quote path ++ ": " ++ fault.message
  | load error => "failed to load recognizers: " ++ error.message
  | scan fault => fault.message

/-- The text of the lines of a list. -/
def lines (ls : List String) : String := String.join (ls.map (· ++ "\n"))

/-- What a scan prints, for a given notion of printable character. -/
def renderWith (printable : Char → Bool) (file source : String) (scan : Scan) : String :=
  lines (scan.tokens.map (Token.renderWith printable)) ++
    String.join (scan.errors.map fun d => d.excerpt file source)

/-- What a scan prints. -/
def render (file source : String) (scan : Scan) : String :=
  renderWith Text.isPrintable file source scan

/-- The recognizers that the options ask for. -/
def recognizers [Monad m] (read : String → m (Except ReadFault String)) (o : Options) :
    ExceptT Failure m Registry := do
  let loaded ← match o.tokens with
    | some path => ExceptT.lift (Registry.ofFile read path)
    | none => pure Registry.builtin
  match loaded with
  | .ok registry => return registry
  | .error e => throw (.load e)

/-- Scans the source file: what is printed, and whether something was reported. -/
def scan [Monad m] (read : String → m (Except ReadFault String)) (o : Options) :
    ExceptT Failure m (String × Bool) := do
  if Path.extension? o.file ≠ some "circuit" then throw (.notCircuit o.file)
  let registry ← recognizers read o
  match ← ExceptT.lift (read o.file) with
  | .error fault => throw (.unreadable o.file fault)
  | .ok source =>
    match registry.tokenize source with
    | .error fault => throw (.scan fault)
    | .ok scan => return (render o.file source scan, !scan.errors.isEmpty)

/-- The version line. -/
def version : String := "circuitc 0.1.0\n"

/-- How the command is used. -/
def usage : String :=
  "Tokenize a .circuit source file\n\nUsage: circuitc [OPTIONS] <FILE>\n"

/-- A run with the given arguments. -/
def run [Monad m] (read : String → m (Except ReadFault String)) (args : List String) :
    m Outcome := do
  match Request.ofArguments args with
  | .error misuse => return { exit := 2, stderr := "error: " ++ misuse.message ++ "\n\n" ++ usage }
  | .ok .version => return { exit := 0, stdout := version }
  | .ok .help => return { exit := 0, stdout := usage }
  | .ok (.scan o) =>
    match ← (scan read o).run with
    | .error failure => return { exit := 1, stderr := "Error: " ++ failure.message ++ "\n" }
    | .ok (text, reported) => return { exit := if reported then 1 else 0, stdout := text }

end Command

end CircuitScan
