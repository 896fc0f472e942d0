/-!
# CircuitScan.Command.Options

The arguments of the command line, read from left to right:

| argument | meaning |
|----------|---------|
| a name | the source file; there is exactly one |
| `-t FILE`, `-tFILE`, `-t=FILE` | a recognizer file, at most once |
| `--tokens FILE`, `--tokens=FILE` | the same |
| `-v`, `--verbose` | asks for a log, at most once |
| `-V`, `--version` | prints the version and ends |
| `-h`, `--help` | prints the usage and ends |
| `--` | every later argument is a name |

Short options may share one dash. A dash alone is a name, and no name is empty. The value of an
option that stands in an argument of its own does not begin with a dash, unless it is a dash alone.
-/

namespace CircuitScan.Command

/-- What the arguments ask a scan to do. -/
structure Options where
  file : String
  tokens : Option String := none
  verbose : Bool := false

/-- What the arguments ask for. -/
inductive Request where
  | scan (options : Options)
  | version
  | help

/-- The arguments that have been read. -/
structure Seen where
  file : Option String := none
  tokens : Option String := none
  verbose : Bool := false

/-- The arguments do not fit the usage. -/
inductive Misuse where
  | unknownOption (option : String)
  | surplusName (name : String)
  | emptyValue
  | missingValue (option : String)
  | repeatedOption (option : String)
  | surplusValue (option : String)
  | missingFile
deriving DecidableEq

/-- What reading one argument leads to: on to the next one, perhaps with an option that waits for
its value, or to the end. -/
inductive Next where
  | more (seen : Seen)
  | await (seen : Seen)
  | stop (request : Request)

namespace Seen

/-- Takes the name of the source file. -/
def takeName (s : Seen) (name : String) : Except Misuse Seen :=
  if s.file.isSome then .error (.surplusName name)
  else if name = "" then .error .emptyValue
  else .ok { s with file := some name }

/-- Takes the name of the recognizer file. -/
def takeTokens (s : Seen) (name : String) : Except Misuse Seen :=
  if name = "" then .error .emptyValue
  else if s.tokens.isSome then .error (.repeatedOption "--tokens")
  else .ok { s with tokens := some name }

/-- Takes the wish for a log. -/
def takeVerbose (s : Seen) : Except Misuse Seen :=
  if s.verbose then .error (.repeatedOption "--verbose") else .ok { s with verbose := true }

/-- Takes short options that share a dash. -/
def takeShort (s : Seen) : List Char → Except Misuse Next
  | [] => .ok (.more s)
  | 'v' :: cs => do (← s.takeVerbose).takeShort cs
  | 'V' :: _ => .ok (.stop .version)
  | 'h' :: _ => .ok (.stop .help)
  | ['t'] => .ok (.await s)
  | 't' :: '=' :: cs => do return .more (← s.takeTokens (String.ofList cs))
  | 't' :: cs => do return .more (← s.takeTokens (String.ofList cs))
  | c :: _ => .error (.unknownOption (String.ofList ['-', c]))

/-- Takes a long option; `value` is what stands behind an equals sign. -/
def takeLong (s : Seen) (name : String) (value : Option String) : Except Misuse Next :=
  if name = "tokens" then
    match value with
    | none => .ok (.await s)
    | some v => do return .more (← s.takeTokens v)
  else if name = "verbose" || name = "version" || name = "help" then
    if value.isSome then .error (.surplusValue name)
    else if name = "verbose" then do return .more (← s.takeVerbose)
    else .ok (.stop (if name = "version" then .version else .help))
  else .error (.unknownOption name)

/-- Takes an argument that is not the value of an option before it. -/
def take (s : Seen) (arg : String) : Except Misuse Next :=
  match arg.toList with
  | '-' :: '-' :: cs =>
    let (name, rest) := cs.span (· ≠ '=')
    let value := match rest with
      | [] => none
      | _ :: v => some (String.ofList v)
    s.takeLong (String.ofList name) value
  | '-' :: c :: cs => s.takeShort (c :: cs)
  | _ => do return .more (← s.takeName arg)

/-- Whether an argument can be the value of an option before it. -/
def isValue (arg : String) : Bool := arg.toList.head? ≠ some '-' || arg = "-"

/-- Takes names only. -/
def takeNames (s : Seen) (args : List String) : Except Misuse Seen := args.foldlM takeName s

/-- The request behind the last argument. -/
def finish (s : Seen) : Except Misuse Request :=
  match s.file with
  | none => .error .missingFile
  | some file => .ok (.scan { file, tokens := s.tokens, verbose := s.verbose })

/-- Takes all arguments. `waiting` says whether an option waits for its value. -/
def takeAll (s : Seen) : (waiting : Bool) → List String → Except Misuse Request
  | true, [] => .error (.missingValue "--tokens")
  | false, [] => s.finish
  | true, arg :: args =>
    if isValue arg then do (← s.takeTokens arg).takeAll false args
    else .error (.missingValue "--tokens")
  | false, arg :: args =>
    if arg = "--" then do (← s.takeNames args).finish
    else do
      match ← s.take arg with
      | .more s => s.takeAll false args
      | .await s => s.takeAll true args
      | .stop request => return request

end Seen

/-- What the arguments ask for. -/
def Request.ofArguments (args : List String) : Except Misuse Request := Seen.takeAll {} false args

/-- A misuse in words. -/
def Misuse.message : Misuse → String
  | unknownOption option => "unexpected option " ++ option
  | surplusName name => "unexpected name " ++ name
  | emptyValue => "a name is empty"
  | missingValue option => "a value is required for " ++ option
  | repeatedOption option => option ++ " cannot be given twice"
  | surplusValue option => "no value is expected for --" ++ option
  | missingFile => "a source file is required"

end CircuitScan.Command
