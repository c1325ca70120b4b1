import Lisplet.Interpreter
import Lisplet.Text.Blank

/-!
# Interactive sessions

A session takes lines. A few words are commands; every other line is program text, evaluated
as soon as its parentheses are balanced. Until then the lines are kept, joined by line feeds,
and the prompt shows that more is expected.
-/

namespace Lisplet

/-- What the user is asked for: a new program, or more of one that has begun. -/
inductive Prompt where
  | ready
  | more
  deriving DecidableEq

/-- The text of a prompt. -/
def Prompt.text : Prompt → String
  | .ready => "> "
  | .more => ". "

/-- What a line asks for. -/
inductive Command where
  | nothing
  | help
  | exit
  | endOfInput
  | program (text : String)
  deriving DecidableEq

namespace Command

/-- Whether a character belongs to a command word: an ASCII letter or digit or an underscore. -/
def isWordChar (c : Char) : Bool := c.isAlphanum || c == '_'

/-- The command that a line without blanks at its ends spells. -/
def ofTrimmed (line : String) : Command :=
  match line.toList with
  | [] => .nothing
  | '?' :: _ => .help
  | chars =>
    let word := chars.takeWhile isWordChar
    if word = "help".toList then .help
    else if word = "exit".toList then .exit
    else if word = "EOF".toList then .endOfInput
    else .program line

/-- The command that a line spells. -/
def ofLine (line : String) : Command := ofTrimmed (Text.trim line)

/-- What the help command shows. -/
def helpText : String :=
  "Enter s-expressions such as (+ 1 2) or (let (x 5) (+ x 1)).\n" ++
  "Builtins: + - * / = < > list concat.\n"

end Command

/-- An interactive session: its interpreter, the text kept so far, and the current prompt. -/
structure Session where
  interpreter : Interpreter
  pending : String := ""
  prompt : Prompt := .ready

/-- The answer to a line: the session after it, what is printed, whether the session is over,
the events on the way, and the fault that broke off the line, if one did. -/
structure Reply where
  session : Session
  output : String := ""
  stops : Bool := false
  events : List Event := []
  fault : Option Fault := none

namespace Session

/-- A session with a new interpreter. -/
def new (settings : Settings) : Session := { interpreter := .new settings }

/-- Whether a failure says that the text may go on. -/
def isUnbalanced : Failure → Bool
  | .error (.source e) => e.kind == .unbalanced
  | _ => false

/-- Evaluate a line of program text together with the text kept before it. -/
def enterProgram (host : Host) (colour : Bool) (s : Session) (line : String) : Reply :=
  let code := if s.pending.isEmpty then line else s.pending ++ "\n" ++ line
  let r := s.interpreter.run host code
  let ready : Session := { interpreter := r.interpreter }
  match r.outcome.bind host.stack.shown with
  | .ok text => { session := ready, output := text ++ "\n", events := r.events }
  | .error failure =>
    if isUnbalanced failure then
      { session := { ready with pending := code, prompt := .more }, events := r.events }
    else match failure with
      | .error e => { session := ready, output := e.report colour ++ "\n", events := r.events }
      | .fault f =>
        { session := { s with interpreter := r.interpreter }, events := r.events, fault := some f }

/-- Carry out a command. -/
def obey (host : Host) (colour : Bool) (s : Session) : Command → Reply
  | .nothing => { session := s }
  | .help => { session := s, output := Command.helpText }
  | .exit => { session := s, stops := true }
  | .endOfInput => { session := s, output := "\n", stops := true }
  | .program text => s.enterProgram host colour text

/-- Take a line. -/
def enter (host : Host) (colour : Bool) (s : Session) (line : String) : Reply :=
  s.obey host colour (.ofLine line)

end Session

end Lisplet
