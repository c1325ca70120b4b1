import Lisplet.CommandLine.Program

/-!
# The executable

The outer layer: it fetches the environment variables, the file and the lines that the user
types, hands them to the program, and prints what the program answers.
-/

namespace Lisplet.CommandLine

/-- Whether colours are shown: the environment can forbid or force them, and otherwise a
terminal has them. -/
def coloursShown : IO Bool := do
  let isSet (name : String) : IO Bool := return (← IO.getEnv name).isSome
  if (← isSet "ANSI_COLORS_DISABLED") || (← isSet "NO_COLOR") then return false
  if ← isSet "FORCE_COLOR" then return true
  if (← IO.getEnv "TERM") == some "dumb" then return false
  (← IO.getStdout).isTty

/-- The environment variables that the settings are read from. -/
def fetchVariables : IO (String → Option String) := do
  let depth ← IO.getEnv depthVariable
  let strict ← IO.getEnv strictVariable
  return fun name =>
    if name = depthVariable then depth else if name = strictVariable then strict else none

/-- The bytes of a file. -/
def fetchFile (name : String) : IO (Except FileError (List UInt8)) := do
  if name.toList.contains (Char.ofNat 0) then return .error .unusableName
  try
    return .ok (← IO.FS.readBinFile name).toList
  catch e =>
    match e with
    | .noFileOrDirectory .. => return .error (.missing name)
    | .inappropriateType .. => return .error (.directory name)
    | e => return .error (.unreadable (toString e))

/-- Print a text at once. -/
def emit (stream : IO.FS.Stream) (text : String) : IO Unit := do
  stream.putStr text
  stream.flush

/-- Print what the program printed, and give the exit code. A breakdown is printed as well. -/
def conclude (r : Result) : IO UInt32 := do
  emit (← IO.getStderr) r.errors
  emit (← IO.getStdout) r.output
  match r.ending with
  | .exit code => return code.toUInt32
  | .breakdown reason =>
    emit (← IO.getStderr) (reason.message ++ "\n")
    return 1

/-- Ask for lines and answer them until the session stops. -/
partial def interact (colour verbose : Bool) (s : Session) : IO UInt32 := do
  emit (← IO.getStdout) s.prompt.text
  let line ← (← IO.getStdin).getLine
  let r := if line.isEmpty then s.obey noHost colour .endOfInput else s.enter noHost colour line
  emit (← IO.getStderr) (logIf verbose r.events)
  emit (← IO.getStdout) r.output
  match r.fault with
  | some fault => conclude { ending := .breakdown (.fault fault) }
  | none => if r.stops then return 0 else interact colour verbose r.session

/-- Run the program with the words of a command line. -/
def execute (words : List String) : IO UInt32 := do
  let colour ← coloursShown
  let variableValue ← fetchVariables
  match read words with
  | .ok (.run o) =>
    match o.file, settingsFor variableValue o with
    | none, .ok settings =>
      emit (← IO.getStdout) greeting
      interact colour o.verbose (.new settings)
    | none, .error e => conclude { ending := .breakdown (.settings e) }
    | some name, _ =>
      let contents ← fetchFile name
      conclude (runOptions ⟨colour, variableValue, fun _ => contents, ""⟩ o)
  | _ => conclude (run ⟨colour, variableValue, fun name => .error (.missing name), ""⟩ words)

end Lisplet.CommandLine

/-- The entry point of the executable. -/
def main (words : List String) : IO UInt32 := Lisplet.CommandLine.execute words
