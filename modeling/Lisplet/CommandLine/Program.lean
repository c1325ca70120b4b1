import Lisplet.CommandLine.Options
import Lisplet.Event
import Lisplet.Session
import Lisplet.Text.Utf8

/-!
# The command-line program

The program runs a file, or a session over its input when no file is named. Everything it
does is a function of the words on the command line, the environment variables, the files and
the input; the result is what it prints and how it ends.
-/

namespace Lisplet.CommandLine

/-- Why a file cannot be read. -/
inductive FileError where
  | missing (name : String)
  | directory (name : String)
  | unusableName
  | unreadable (reason : String)
  deriving DecidableEq

/-- The words for a file that cannot be read. -/
def FileError.message : FileError → String
  | .missing name => "[Errno 2] No such file or directory: " ++ Text.quoted name
  | .directory name => "[Errno 21] Is a directory: " ++ Text.quoted name
  | .unusableName => "embedded null byte"
  | .unreadable reason => reason

/-- What keeps the program from coming to its own end. -/
inductive Breakdown where
  | settings (e : SettingsError)
  | file (e : FileError)
  | encoding (e : Text.DecodeError)
  | fault (f : Fault)

/-- The words for bytes that are not UTF-8. -/
def decodeMessage (e : Text.DecodeError) : String :=
  let place :=
    if e.length = 1 then
      "byte 0x" ++ String.ofList (Text.hexadecimal 2 e.byte) ++ " in position " ++ e.start.repr
    else "bytes in position " ++ e.start.repr ++ "-" ++ (e.start + e.length - 1).repr
  "'utf-8' codec can't decode " ++ place ++ ": " ++ e.fault.reason

/-- The words for a breakdown. -/
def Breakdown.message : Breakdown → String
  | .settings e => e.message
  | .file e => e.message
  | .encoding e => decodeMessage e
  | .fault f => f.text

/-- How the program ends. -/
inductive Ending where
  | exit (code : Nat)
  | breakdown (reason : Breakdown)

/-- What the program prints on its two channels, and how it ends. -/
structure Result where
  output : String := ""
  errors : String := ""
  ending : Ending := .exit 0

/-- The world that the program runs in. -/
structure World where
  colour : Bool
  variableValue : String → Option String
  fileContents : String → Except FileError (List UInt8)
  input : String
  [stack : HostStack]

/-- The line that shows how the program is called. -/
def usage : String := "usage: toylang [-h] [--strict] [-v] [file]\n"

/-- What the program prints when it is asked for help. -/
def help : String :=
  usage ++
  "\npositional arguments:\n" ++
  "  file           file to run (if empty, starts the interactive shell)\n" ++
  "\noptions:\n" ++
  "  -h, --help     show this help message and exit\n" ++
  "  --strict       raise on unbound symbols\n" ++
  "  -v, --verbose  log tokens, forms and results\n"

/-- What a session prints before its first prompt. -/
def greeting : String :=
  "toylang interpreter\nType 'help' for more information, 'exit' to quit.\n"

/-- The program alone provides no host functions, and only a stack. -/
def noHost [HostStack] : Host := ⟨fun f _ => .error (.fault (.host ⟨.other, f.name, ""⟩))⟩

/-- The host that the program has in a world. -/
def World.host (w : World) : Host := @noHost w.stack

/-- What a session over lines prints, the events on the way, and the fault that broke it off,
if one did. The end of the lines ends the session. -/
def converse (host : Host) (colour : Bool) (s : Session) :
    List String → String × List Event × Option Fault
  | [] =>
    let r := s.obey host colour .endOfInput
    (s.prompt.text ++ r.output, r.events, r.fault)
  | line :: rest =>
    let r := s.enter host colour line
    let printed := s.prompt.text ++ r.output
    if r.stops || r.fault.isSome then (printed, r.events, r.fault)
    else
      let (output, events, fault) := converse host colour r.session rest
      (printed ++ output, r.events ++ events, fault)

/-- The lines of an input; a final line feed starts no further line. -/
def inputLines (input : String) : List String :=
  let lines := Text.lines input.toList
  (if lines.getLast? = some [] then lines.dropLast else lines).map String.ofList

/-- The log of events, if it is asked for. -/
def logIf (verbose : Bool) (events : List Event) : String :=
  if verbose then Event.log events else ""

/-- Run a session over the input. -/
def runSession (w : World) (verbose : Bool) (settings : Settings) : Result :=
  let (output, events, fault) := converse w.host w.colour (.new settings) (inputLines w.input)
  { output := greeting ++ output
    errors := logIf verbose events
    ending := (fault.map fun f => .breakdown (.fault f)).getD (.exit 0) }

/-- Run a program text. -/
def runText (w : World) (verbose : Bool) (settings : Settings) (code : String) : Result :=
  let r := (Interpreter.new settings).run w.host code
  let log := logIf verbose r.events
  match r.outcome.bind w.stack.shown with
  | .ok text => { output := text ++ "\n", errors := log }
  | .error (.error e) => { errors := log ++ e.report w.colour ++ "\n", ending := .exit 1 }
  | .error (.fault f) => { errors := log, ending := .breakdown (.fault f) }

/-- The text of a file, with its line ends unified. -/
def readText (w : World) (name : String) : Except Breakdown String :=
  match w.fileContents name with
  | .error e => .error (.file e)
  | .ok bytes =>
    match Text.decode bytes with
    | .error e => .error (.encoding e)
    | .ok text => .ok (String.ofList (Text.unifyLineEnds text))

/-- The settings of the environment variables, made strict if the options ask for it. -/
def settingsFor (variableValue : String → Option String) (o : Options) :
    Except SettingsError Settings :=
  (Settings.ofVariables variableValue).map fun settings =>
    if o.strict then { settings with strictUnbound := true } else settings

/-- Carry out what the options ask for. -/
def runOptions (w : World) (o : Options) : Result :=
  match settingsFor w.variableValue o with
  | .error e => { ending := .breakdown (.settings e) }
  | .ok settings =>
    match o.file with
    | none => runSession w o.verbose settings
    | some name =>
      match readText w name with
      | .error reason => { ending := .breakdown reason }
      | .ok code => runText w o.verbose settings code

/-- Run the program on the words of a command line. -/
def run (w : World) (words : List String) : Result :=
  match read words with
  | .error e =>
    { errors := usage ++ "toylang: error: " ++ e.message ++ "\n", ending := .exit 2 }
  | .ok .help => { output := help }
  | .ok (.run o) => runOptions w o

end Lisplet.CommandLine
