import Lisplet.Text.Digit
import Lisplet.Text.Quoted

/-!
# Command-line options

A command line holds switches and at most one file. Long switches may be shortened as long as
they stay clear, short ones may be written together, and after two dashes every word is taken
for a file. Asking for help ends the reading at once; words that nothing claims are reported
together at the end.
-/

namespace Lisplet.CommandLine

/-- The switches. -/
inductive Switch where
  | help
  | strict
  | verbose
  deriving DecidableEq

/-- The spellings of a switch, the short one first. -/
def Switch.spellings : Switch → List String
  | .help => ["-h", "--help"]
  | .strict => ["--strict"]
  | .verbose => ["-v", "--verbose"]

/-- Every spelling with its switch. -/
def spellings : List (String × Switch) :=
  [Switch.help, .strict, .verbose].flatMap fun switch => switch.spellings.map (·, switch)

/-- What a command line asks for. -/
structure Options where
  file : Option String := none
  strict : Bool := false
  verbose : Bool := false
  deriving DecidableEq

/-- What is wrong with a command line. -/
inductive UsageError where
  | ambiguous (word : String) (candidates : List String)
  | ignoredArgument (switch : Switch) (argument : String)
  | unrecognized (words : List String)
  deriving DecidableEq

/-- The words for a wrong command line. -/
def UsageError.message : UsageError → String
  | .ambiguous word candidates =>
    "ambiguous option: " ++ word ++ " could match " ++ String.intercalate ", " candidates
  | .ignoredArgument switch argument =>
    "argument " ++ String.intercalate "/" switch.spellings ++
      ": ignored explicit argument " ++ Text.quoted argument
  | .unrecognized words => "unrecognized arguments: " ++ String.intercalate " " words

/-- Whether a text starts with another. -/
def startsWith (start text : List Char) : Bool := start.isPrefixOf text

/-- The part of a word before its first equals sign and, if there is one, the part after. -/
def splitEquals (word : List Char) : List Char × Option (List Char) :=
  match word.dropWhile (· != '=') with
  | [] => (word, none)
  | _ :: value => (word.takeWhile (· != '='), some value)

/-- A switch as it is used in a word: whether it is a long one, and the text that follows it in
the word, if any. An equals sign directly after the first switch is not part of that text. -/
structure SwitchUse where
  switch : Switch
  long : Bool
  attached : Option (List Char)

/-- What a word of the command line is. -/
inductive Word where
  | plain (text : String)
  | separator
  | switch (use : SwitchUse)
  | unknown (text : String)

/-- The switch with exactly this spelling. -/
def switch? (spelling : List Char) : Option Switch :=
  (spellings.find? fun entry => entry.1.toList == spelling).map (·.2)

/-- The long switches that a word may be short for. -/
def completions (start : List Char) : List (String × Switch) :=
  spellings.filter fun entry => startsWith start entry.1.toList

/-- Whether a text is digits of any scripts. -/
def allDigits (text : List Char) : Bool := text.all fun c => (Text.digitValue? c).isSome

/-- Whether a word after its dash is a number: digits, or digits after a point. A final line
feed is let pass. -/
def isNumber (text : List Char) : Bool :=
  let body := if text.getLast? = some '\n' then text.dropLast else text
  let whole := body.takeWhile (· != '.')
  match body.dropWhile (· != '.') with
  | [] => !whole.isEmpty && allDigits whole
  | _ :: fraction => !fraction.isEmpty && allDigits whole && allDigits fraction

/-- What a word is that starts with a dash but spells no switch. -/
def unmatched (word : List Char) : Word :=
  if isNumber (word.drop 1) || word.contains ' ' then .plain (String.ofList word)
  else .unknown (String.ofList word)

/-- What a word that starts with two dashes is. -/
def classifyLong (word : List Char) : Except UsageError Word :=
  let (start, value) := splitEquals word
  match completions start with
  | [] => .ok (unmatched word)
  | [(_, switch)] => .ok (.switch ⟨switch, true, value⟩)
  | several => .error (.ambiguous (String.ofList word) (several.map (·.1)))

/-- What a word that starts with one dash is. -/
def classifyShort (word : List Char) : Word :=
  match switch? (word.take 2) with
  | some switch => .switch ⟨switch, false, some (word.drop 2)⟩
  | none => unmatched word

/-- What a word is. -/
def classify (word : String) : Except UsageError Word :=
  match word.toList with
  | '-' :: second :: rest =>
    let chars := '-' :: second :: rest
    let (start, value) := splitEquals chars
    match switch? chars, value, switch? start with
    | some switch, _, _ => .ok (.switch ⟨switch, second == '-', none⟩)
    | none, some value, some switch => .ok (.switch ⟨switch, second == '-', some value⟩)
    | _, _, _ => if second = '-' then classifyLong chars else .ok (classifyShort chars)
  | _ => .ok (.plain word)

/-- What all the words are; after two dashes alone every word is plain. -/
def classifyAll : List String → Except UsageError (List Word)
  | [] => .ok []
  | word :: rest =>
    if word = "--" then .ok (.separator :: rest.map .plain)
    else do
      let first ← classify word
      let others ← classifyAll rest
      return first :: others

/-- The switches of a word that begins with a short one, given the text after that one. Every
character of the text has to be a short switch; where one is not, the switch before it is
blamed for the text from there on. -/
def together (switch : Switch) : List Char → Except UsageError (List Switch)
  | [] => .error (.ignoredArgument switch "")
  | c :: rest =>
    match switch? ['-', c] with
    | none => .error (.ignoredArgument switch (String.ofList (c :: rest)))
    | some next =>
      if rest.isEmpty then .ok [switch, next]
      else (together next rest).map (switch :: ·)

/-- The switches that a word stands for. -/
def SwitchUse.switches (use : SwitchUse) : Except UsageError (List Switch) :=
  match use.attached with
  | none => .ok [use.switch]
  | some text =>
    if use.long then .error (.ignoredArgument use.switch (String.ofList text))
    else together use.switch text

/-- The text of a word that nothing claims. -/
def Word.leftover : Word → List String
  | .plain text => [text]
  | .separator => ["--"]
  | .switch _ => []
  | .unknown text => [text]

/-- Whether a word is a switch or looks like one. -/
def Word.isOption : Word → Bool
  | .switch _ => true
  | .unknown _ => true
  | _ => false

/-- The file among the words after the last switch, and the words left over. The separator
next to the file goes with it. -/
def takeFile : List Word → Option String × List Word
  | .separator :: .plain text :: rest => (some text, rest)
  | .separator :: rest => (none, rest)
  | .plain text :: .separator :: rest => (some text, rest)
  | .plain text :: rest => (some text, rest)
  | rest => (none, rest)

/-- What a command line comes to. -/
inductive Request where
  | help
  | run (options : Options)
  deriving DecidableEq

/-- The options with a switch set. -/
def Options.set (o : Options) : Switch → Options
  | .help => o
  | .strict => { o with strict := true }
  | .verbose => { o with verbose := true }

/-- A request, unless words are left over. -/
def finish (o : Options) (leftover : List String) : Except UsageError Request :=
  if leftover.isEmpty then .ok (.run o) else .error (.unrecognized leftover)

/-- Go through the words, with the options so far, whether the file is still to come, and the
words left over. -/
def readWords (o : Options) (awaitsFile : Bool) (leftover : List String) :
    List Word → Except UsageError Request
  | [] => finish o leftover
  | word :: rest =>
    if (word :: rest).any Word.isOption then
      match word with
      | .switch use =>
        match use.switches with
        | .error e => .error e
        | .ok switches =>
          if .help ∈ switches then .ok .help
          else readWords (switches.foldl Options.set o) awaitsFile leftover rest
      | .plain text =>
        if awaitsFile then readWords { o with file := some text } false leftover rest
        else readWords o false (leftover ++ [text]) rest
      | word => readWords o awaitsFile (leftover ++ word.leftover) rest
    else
      let (file, others) := if awaitsFile then takeFile (word :: rest) else (o.file, word :: rest)
      finish { o with file } (leftover ++ others.flatMap Word.leftover)

/-- What the words of a command line ask for. -/
def read (words : List String) : Except UsageError Request := do
  let words ← classifyAll words
  readWords {} true [] words

end Lisplet.CommandLine
