import Flashdeck.Command.Log

/-!
# The program

The command line as a program: it reads its variables and its script, runs the command, and prints
what the run gives and its log.
-/

namespace Flashdeck.Command.Program

/-- How the program is called. -/
def usage : String :=
  "usage: flashdeck [--mode compat|balanced] [--escapes decode|raw] " ++
    "(compile [INPUT] [--no-layout] [--pretty] | check [INPUT] | list [INPUT])"

/-- The values of the variables: those of the settings, and the filter of the log. -/
def readVariables : IO (List (String × String)) := do
  let mut values := []
  for name in Log.filterVariable :: Settings.Variable.all.map Settings.Variable.name do
    match ← IO.getEnv name with
    | some value => values := values ++ [(name, value)]
    | none => pure ()
  return values

/-- The cause of a failed read. The system's code may come with its sign turned. -/
def causeOf (error : IO.Error) : FileFault :=
  match error with
  | .noFileOrDirectory .. => .notFound
  | .inappropriateType _ code _ =>
    match code.toInt32.toInt.natAbs with
    | 20 => .notDirectory
    | 21 => .isDirectory
    | _ => .other (toString error)
  | _ => .other (toString error)

/-- Reads a file. -/
def readFileBytes (path : String) : IO (Except FileFault (List UInt8)) := do
  try
    let bytes ← IO.FS.readBinFile path
    return .ok bytes.toList
  catch error =>
    return .error (causeOf error)

/-- What the source of an invocation holds: the bytes of standard input, and what its file gives.
Nothing is read that the run does not look at. -/
def readSource (invocation : Invocation) (lookup : String → Option String) :
    IO (List UInt8 × Except FileFault (List UInt8)) := do
  match invocation.settings lookup, invocation.source with
  | .ok _, .standardInput =>
    let bytes ← (← IO.getStdin).readBinToEnd
    return (bytes.toList, .error .notFound)
  | .ok _, .file path => return ([], ← readFileBytes path)
  | .error _, _ => return ([], .error .notFound)

/-- Runs the program. -/
def start (arguments : List String) : IO UInt32 := do
  match Invocation.ofArguments? arguments with
  | none =>
    (← IO.getStderr).putStrLn usage
    return 2
  | some invocation =>
    let values ← readVariables
    let lookup (name : String) := values.lookup name
    let (standardInput, content) ← readSource invocation lookup
    let outcome := invocation.runLogged Log.plain lookup standardInput fun _ => content
    (← IO.getStdout).putStr outcome.output
    (← IO.getStderr).putStr outcome.errors
    return outcome.code.toUInt32

end Flashdeck.Command.Program

def main (arguments : List String) : IO UInt32 :=
  Flashdeck.Command.Program.start arguments
