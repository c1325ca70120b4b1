import Lisplet.Event
import Lisplet.Interpreter
import Lisplet.Proofs.Evaluation.Record
import Lisplet.Proofs.Form.Progress

/-!
# Running a program form by form

An interpreter evaluates a form as soon as it has read it. The same values, effects and calls come
about when all the forms are read first and then evaluated one after the other: evaluation leaves
the scanner where it is, and a form is read to its last parenthesis and no further. Only the order
of the events differs, as tokens come to light between evaluations.
-/

namespace Lisplet

/-- What evaluating forms one after the other comes to: the values of the forms that have one, the
failure that ends it, the events on the way and the environments in the end. -/
structure Course where
  values : List Value := []
  failure : Option Failure := none
  events : List Event := []
  environments : Environments

namespace Course

/-- A course with the evaluation of one more form before it. -/
def after (value : Value) (events : List Event) (later : Course) : Course :=
  { later with values := value :: later.values, events := events ++ later.events }

/-- A form evaluated before the others leaves what they leave. -/
@[simp] theorem environments_after (value : Value) (events : List Event) (later : Course) :
    (after value events later).environments = later.environments := rfl

/-- Evaluate forms one after the other in one environment, each with the effects of those before it,
up to the first that fails. -/
def ofForms (host : Host) (settings : Settings) (env : Nat) (es : Environments) :
    List (List Value) → Course
  | [] => { environments := es }
  | form :: forms =>
    match (Evaluation.evaluate host settings env 0 (.list form)).run { environments := es } with
    | (.ok value, m) =>
      after value m.events.toList (ofForms host settings env m.environments forms)
    | (.error failure, m) =>
      { failure := some failure, events := m.events.toList, environments := m.environments }

/-- What a program with this course comes to: the failure of a form, else the error that ends the
forms, else the value of the last form. -/
def outcome (course : Course) (error : Option Error) (last : Value) : Except Failure Value :=
  match course.failure, error with
  | some failure, _ => .error failure
  | none, some e => .error (.error e)
  | none, none => .ok (course.values.getLast?.getD last)

/-- With one more form before it, a program comes to the same outcome, where the value of that form
takes the place of the value that there was before. -/
theorem outcome_after (value : Value) (events : List Event) (later : Course)
    (error : Option Error) (last : Value) :
    (after value events later).outcome error last = later.outcome error value := by
  simp [outcome, after, List.getLast?_cons]

variable (host : Host) (settings : Settings) (env : Nat)

/-- All forms have values unless one fails. -/
theorem failure_eq_none_iff (es : Environments) (forms : List (List Value)) :
    (ofForms host settings env es forms).failure = none ↔
      (ofForms host settings env es forms).values.length = forms.length := by
  induction forms generalizing es with
  | nil => simp [ofForms]
  | cons form forms ih =>
    rw [ofForms]
    split
    · next value m _ => simpa [after] using ih m.environments
    · simp

/-- The failure of a course is that of a form. -/
theorem exists_of_failure {es : Environments} {forms : List (List Value)} {failure : Failure}
    (h : (ofForms host settings env es forms).failure = some failure) :
    ∃ form m, ((Evaluation.evaluate host settings env 0 (.list form)).run m).1 = .error failure := by
  induction forms generalizing es with
  | nil => cases h
  | cons form forms ih =>
    rw [ofForms] at h
    split at h
    · exact ih h
    · next failure' m hrun =>
      cases h
      exact ⟨form, _, congrArg Prod.fst hrun⟩

/-- The forms behind the first that fails have no part in the course. -/
theorem ofForms_take (es : Environments) (forms : List (List Value)) :
    ofForms host settings env es
        (forms.take ((ofForms host settings env es forms).values.length + 1)) =
      ofForms host settings env es forms := by
  induction forms generalizing es with
  | nil => rfl
  | cons form forms ih =>
    rw [List.take_succ_cons, ofForms, ofForms]
    split
    · next value m _ => exact congrArg (after value m.events.toList) (ih m.environments)
    · rfl

end Course

namespace Evaluation

variable (host : Host) (settings : Settings) (env : Nat) (code : String)

/-- What a program does after the tokens of its next form have come to light. -/
def goOn (last : Value) (r : Reading (Option (List Value))) : Evaluation Value :=
  match r.outcome with
  | .error e => throw (.error (.source (e.within code)))
  | .ok none => return last
  | .ok (some form) => do
    record (.parsed form)
    let value ← evaluate host settings env 0 (.list form)
    record (.result value)
    runForms host settings env code value r.scanner

/-- A program reads its next form and goes on with it. -/
theorem runForms_eq (s : Scanner) (last : Value) : runForms host settings env code last s =
    recordAll ((s.revealedUntil (Form.next settings.maxDepth s).scanner).map .token) >>=
      fun _ => goOn host settings env code last (Form.next settings.maxDepth s) := by
  rw [runForms]
  congr 1
  funext _
  rw [goOn]
  split <;> simp_all

/-- Recording an event puts it behind those recorded before. -/
theorem run_record (event : Event) (m : Machine) :
    (record event).run m = (.ok (), { m with events := m.events.push event }) := rfl

/-- Tokens are no events of evaluation. -/
theorem filter_tokens (tokens : List Token) :
    (tokens.map Event.token).filter Event.isOfEvaluation = [] := by
  rw [List.filter_map, List.map_eq_nil_iff]
  exact List.filter_eq_nil_iff.mpr fun t _ => by simp [Event.isOfEvaluation]

/-- The forms of a text, read and evaluated one at a time, come to what evaluating them does when
all have been read before, and add the same events of evaluation to the record. -/
theorem exists_run_runForms (s : Scanner) (es : Environments) (last : Value) :
    let read := Form.drain settings.maxDepth s
    let course := Course.ofForms host settings env es read.1
    ∃ events : List Event, events.filter Event.isOfEvaluation = course.events ∧
      ∀ earlier, (runForms host settings env code last s).run ⟨es, earlier⟩ =
        (course.outcome (read.2.map fun e => .source (e.within code)) last,
          ⟨course.environments, earlier ++ events.toArray⟩) := by
  -- every form leaves less of the text, and its value is the one that the rest starts from
  induction hremaining : s.remaining using Nat.strongRecOn generalizing s es last with
  | ind n ih =>
  subst hremaining
  dsimp only
  obtain ⟨tokens, htokens⟩ : ∃ tokens,
      tokens = s.revealedUntil (Form.next settings.maxDepth s).scanner := ⟨_, rfl⟩
  have hstart (earlier : Array Event) : (runForms host settings env code last s).run ⟨es, earlier⟩ =
      (goOn host settings env code last (Form.next settings.maxDepth s)).run
        ⟨es, earlier ++ (tokens.map Event.token).toArray⟩ := by
    rw [runForms_eq, run_bind, htokens]
    rfl
  simp only [hstart]
  rw [Form.drain_eq]
  cases houtcome : (Form.next settings.maxDepth s).outcome with
  | error e =>
    refine ⟨tokens.map .token, filter_tokens tokens, fun earlier => ?_⟩
    rw [goOn, houtcome]
    rfl
  | ok found =>
    cases found with
    | none =>
      refine ⟨tokens.map .token, filter_tokens tokens, fun earlier => ?_⟩
      rw [goOn, houtcome]
      rfl
    | some form =>
      obtain ⟨outcome, after, events, hevents, hrun⟩ :=
        (onlyRecords_law host settings).evaluate env 0 (.list form) es
      have hown : events.filter Event.isOfEvaluation = events := List.filter_eq_self.mpr hevents
      have hform : (evaluate host settings env 0 (.list form)).run { environments := es } =
          (outcome, ⟨after, events.toArray⟩) := by
        rw [hrun, Array.empty_append]
      dsimp only
      rw [goOn, houtcome, Course.ofForms, hform]
      simp only [run_bind, run_record, hrun]
      cases outcome with
      | error failure =>
        refine ⟨tokens.map .token ++ .parsed form :: events, ?_, fun earlier => ?_⟩
        · simp [filter_tokens, Event.isOfEvaluation, hown]
        · simp [Course.outcome]
      | ok value =>
        obtain ⟨later, hlater, hrest⟩ := ih _ (Form.remaining_next_lt houtcome)
          (Form.next settings.maxDepth s).scanner after value rfl
        refine ⟨tokens.map .token ++ .parsed form :: events ++ .result value :: later, ?_,
          fun earlier => ?_⟩
        · simp [filter_tokens, Event.isOfEvaluation, hown, hlater, Course.after]
        · simp [hrest, Course.outcome_after]

end Evaluation

/-- Only events of evaluation are calls. -/
theorem Event.calls_filter (events : List Event) :
    calls (events.filter Event.isOfEvaluation) = calls events := by
  rw [calls, calls, List.filterMap_filter]
  congr 1
  funext event
  cases event <;> rfl

namespace Interpreter

variable (host : Host) (i : Interpreter) (code : String)

/-- The course of the forms of a program up to its end or the first error in its text. -/
def course : Course :=
  .ofForms host i.settings root i.environments
    (Form.drain i.settings.maxDepth (.ofText code)).1

/-- Running a program is reading its forms and then evaluating them. -/
theorem run_fields :
    (i.run host code).outcome = (i.course host code).outcome
      ((Form.drain i.settings.maxDepth (.ofText code)).2.map fun e => .source (e.within code))
      .nil ∧
    (i.run host code).events.filter Event.isOfEvaluation = (i.course host code).events ∧
    (i.run host code).interpreter =
      { i with environments := (i.course host code).environments } := by
  obtain ⟨events, hevents, hrun⟩ := Evaluation.exists_run_runForms host i.settings root code
    (.ofText code) i.environments .nil
  have hprogram : (Evaluation.runProgram host i.settings root code).run
      { environments := i.environments } = _ := hrun #[]
  rw [run, hprogram, Array.empty_append]
  exact ⟨rfl, hevents, rfl⟩

/-- Programs that are read as the same forms without an error run in the same way. -/
theorem run_congr {other : String}
    (h : Form.drain i.settings.maxDepth (.ofText code) =
      Form.drain i.settings.maxDepth (.ofText other))
    (hread : (Form.drain i.settings.maxDepth (.ofText other)).2 = none) :
    (i.run host code).outcome = (i.run host other).outcome ∧
    (i.run host code).events.filter Event.isOfEvaluation =
      (i.run host other).events.filter Event.isOfEvaluation ∧
    (i.run host code).interpreter = (i.run host other).interpreter := by
  obtain ⟨houtcome, hevents, hinterpreter⟩ := i.run_fields host code
  obtain ⟨houtcome', hevents', hinterpreter'⟩ := i.run_fields host other
  have hcourse : i.course host code = i.course host other := by rw [course, course, h]
  rw [houtcome, houtcome', hevents, hevents', hinterpreter, hinterpreter', hcourse, h, hread]
  exact ⟨rfl, rfl, rfl⟩

/-- A program in which an error comes before any form does nothing but fail with it. -/
theorem run_of_no_forms {e : SyntaxError}
    (h : Form.drain i.settings.maxDepth (.ofText code) = ([], some e)) :
    (i.run host code).outcome = .error (.error (.source (e.within code))) ∧
    (i.run host code).events.filter Event.isOfEvaluation = [] ∧
    (i.run host code).interpreter = i := by
  obtain ⟨houtcome, hevents, hinterpreter⟩ := i.run_fields host code
  have hcourse : i.course host code = { environments := i.environments } := by
    rw [course, h, Course.ofForms]
  rw [houtcome, hevents, hinterpreter, hcourse, h]
  exact ⟨rfl, rfl, rfl⟩

/-- Running a program evaluates the forms of its text in order in the root environment. It comes to
the failure of the first form that fails, and then nothing after that form is evaluated or reported;
else to the error that ends the forms, after all of them have been evaluated; else to the value of
the last form. The functions called are those that evaluating these forms calls. -/
theorem run_eq_course :
    let read := Form.drain i.settings.maxDepth (.ofText code)
    let course := Course.ofForms host i.settings root i.environments read.1
    let r := i.run host code
    (r.outcome = match course.failure, read.2 with
      | some failure, _ => .error failure
      | none, some e => .error (.error (.source (e.within code)))
      | none, none => .ok (course.values.getLast?.getD .nil)) ∧
    (course.failure = none ↔ course.values.length = read.1.length) ∧
    course = Course.ofForms host i.settings root i.environments
      (read.1.take (course.values.length + 1)) ∧
    r.events.filter Event.isOfEvaluation = course.events ∧
    Event.calls r.events = Event.calls course.events ∧
    r.interpreter = { i with environments := course.environments } := by
  obtain ⟨houtcome, hevents, hinterpreter⟩ := i.run_fields host code
  dsimp only
  refine ⟨?_, Course.failure_eq_none_iff .., (Course.ofForms_take ..).symm, hevents, ?_,
    hinterpreter⟩
  · rw [houtcome]
    unfold Course.outcome Interpreter.course
    generalize Form.drain i.settings.maxDepth (.ofText code) = read
    cases (Course.ofForms host i.settings root i.environments read.1).failure with
    | none => cases read.2 <;> rfl
    | some failure => rfl
  · rw [← Event.calls_filter, hevents]
    rfl

end Interpreter

end Lisplet
