import Lisplet.CommandLine.Program
import Lisplet.Proofs.Interpreter.Deepening

/-!
# Running a file

With the builtin functions alone no program leaves the language, as long as the host has the room to
show the values: it comes to a value made of lists, doubles, texts, builtin functions and the two
markers, or to an error of one of the kinds that readers and evaluations report. So the program on
the command line, once it has read a file, either prints a value and exits with zero, or reports an
error and exits with one. A value that is too deep for the stack of the host breaks it off.
-/

namespace Lisplet

/-- The kinds of error that programs can come to. A name without a value is an error only where
strictness makes it one. -/
def ErrorKind.IsOfPrograms (strict : Bool) (k : ErrorKind) : Prop :=
  k ∈ [.lexical, .parse, .unbalanced, .evaluation] ∨ strict = true ∧ k = .unboundSymbol

/-- What is wrong with a text is an error of a kind that programs can come to. -/
theorem SyntaxFault.isOfPrograms (fault : SyntaxFault) (strict : Bool) :
    fault.kind.toErrorKind.IsOfPrograms strict := by
  left
  cases fault <;> simp [SyntaxFault.kind, SourceErrorKind.toErrorKind]

/-- An ordinary failure is an error of a kind that programs can come to. -/
theorem Failure.IsOrdinary.exists_error {strict : Bool} {f : Failure} (h : f.IsOrdinary strict) :
    ∃ e : Error, f = .error e ∧ e.kind.IsOfPrograms strict := by
  obtain ⟨e, rfl, hkind⟩ := h
  refine ⟨.eval e, rfl, ?_⟩
  rw [Error.kind]
  obtain hkind | ⟨hstrict, hkind⟩ := hkind
  · left
    rw [hkind]
    decide
  · right
    rw [hkind]
    exact ⟨hstrict, rfl⟩

namespace Interpreter

/-- A program of a new interpreter comes to an ordinary value or to an error of the language, or it
exhausts the stack of the host. -/
theorem value_or_error_of_run_new (host : Host) (settings : Settings) (code : String) :
    let outcome := ((new settings).run host code).outcome
    (∃ value, outcome = .ok value ∧ value.IsOrdinary settings.strictUnbound) ∨
      (∃ e : Error, outcome = .error (.error e) ∧ e.kind.IsOfPrograms settings.strictUnbound) ∨
      outcome = .error (.fault .exhausted) := by
  dsimp only
  cases houtcome : ((new settings).run host code).outcome with
  | ok value => exact Or.inl ⟨value, rfl, isOrdinary_of_run_new host settings code houtcome⟩
  | error failure =>
    right
    obtain ⟨-, hfailure⟩ := run_new host settings code
    obtain ⟨e, -, rfl, -⟩ | hordinary | rfl := hfailure failure houtcome
    · exact Or.inl ⟨_, rfl, e.fault.isOfPrograms _⟩
    · obtain ⟨e, rfl, hkind⟩ := hordinary.exists_error
      exact Or.inl ⟨e, rfl, hkind⟩
    · exact Or.inr rfl

end Interpreter

namespace CommandLine

/-- The program on a file that can be read, when it is not asked for a log. -/
theorem run_of_readText {w : World} {words : List String} {o : Options} {name : String}
    {settings : Settings} {code : String} (hread : read words = .ok (.run o))
    (hfile : o.file = some name) (hquiet : o.verbose = false)
    (hsettings : settingsFor w.variableValue o = .ok settings)
    (htext : readText w name = .ok code) : run w words = runText w false settings code := by
  simp only [run, hread, runOptions, hsettings, hfile, htext, hquiet]

/-- A text that comes to a value is run by printing the value, if there is the room for it. -/
theorem runText_of_ok {w : World} {settings : Settings} {code : String} {value : Value}
    (h : ((Interpreter.new settings).run w.host code).outcome = .ok value)
    (hdisplays : w.stack.displays value = true) :
    runText w false settings code =
      { output := value.display ++ "\n", errors := "", ending := .exit 0 } := by
  have hshown : w.stack.shown value = .ok value.display := HostStack.shown_of_displays hdisplays
  simp only [runText, h, Except.bind, hshown, logIf, Bool.false_eq_true, if_false]

/-- A text that comes to an error is run by reporting the error. -/
theorem runText_of_error {w : World} {settings : Settings} {code : String} {e : Error}
    (h : ((Interpreter.new settings).run w.host code).outcome = .error (.error e)) :
    runText w false settings code =
      { output := "", errors := e.report w.colour ++ "\n", ending := .exit 1 } := by
  simp only [runText, h, Except.bind, logIf, Bool.false_eq_true, if_false, String.empty_append]

/-- A text that exhausts the stack breaks the program off. -/
theorem runText_of_exhausts {w : World} {settings : Settings} {code : String}
    (h : (Interpreter.new settings).Exhausts w.host code) :
    runText w false settings code =
      { output := "", errors := "", ending := .breakdown (.fault .exhausted) } := by
  have hshown : ((Interpreter.new settings).run w.host code).outcome.bind w.stack.shown =
      .error (.fault .exhausted) := Interpreter.exhausts_iff.mp h
  simp only [runText, hshown, logIf, Bool.false_eq_true, if_false]

end CommandLine

end Lisplet
